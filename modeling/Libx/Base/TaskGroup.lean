import Libx.Core.Run

/-!
# Libx.Base.TaskGroup — the thread pool

base/task.c, one critical section or atomic operation at a time.  A task is known by the number of its submission; the done
list is a list, its pushes and pops single steps.
-/

namespace Libx.Base

/-- `TASK_QUEUED`, `TASK_RUNNING`, `TASK_DONE`, `TASK_CANCELLED`. -/
inductive TaskState
  | queued
  | running
  | done
  | cancelled
  deriving DecidableEq

/-- Where a worker is in its loop: it is about to lock; it waits for the condition; it has dequeued a task and is about to
claim it, to call its function, to store the result and the state, to push it on the done list, to signal the note, to
decrement the count. -/
inductive WorkerPhase
  | looping
  | waiting
  | claiming (t : ℕ)
  | running (t : ℕ)
  | storing (t : ℕ)
  | pushing (t : ℕ)
  | signalling (t : ℕ)
  | counting (t : ℕ)
  deriving DecidableEq

def WorkerPhase.hand : WorkerPhase → Option ℕ
  | .looping | .waiting => none
  | .claiming t | .running t | .storing t | .pushing t | .signalling t | .counting t => some t

/-- The task whose struct a worker is still to use. -/
def WorkerPhase.uses : WorkerPhase → Option ℕ
  | .looping | .waiting | .counting _ => none
  | .claiming t | .running t | .storing t | .pushing t | .signalling t => some t

/-- `xTask_`: its state and its note; the thread that submitted it, and whether that thread has a use for it still. -/
structure Task (ι : Type*) where
  state : TaskState := .queued
  note : Bool := false
  owner : ι
  held : Bool := true

/-- `xTaskGroup_`, with the number of accepted tasks and the threads in `xTaskGroupWait`, which wait for the count or drain
the done list; whether the creation of a thread has
failed; the tasks whose function was called, those for which `xTaskCancel` returned Ok, and those that are finished; and
whether a struct was freed that its worker still used, or its owner, and whether two threads drained at once. -/
structure TaskGroup (ι : Type*) where
  maxThreads : ℕ
  qcap : ℕ := 0
  queue : List ℕ := []
  workers : List WorkerPhase := []
  idle : ℕ := 0
  pending : ℤ := 0
  doneList : List ℕ := []
  tasks : ℕ → Option (Task ι) := fun _ => none
  accepted : ℕ := 0
  waiters : List ι := []
  drainers : List ι := []
  failed : Bool := false
  log : List ℕ := []
  cancels : List ℕ := []
  finished : List ℕ := []
  early : Bool := false
  stolen : Bool := false
  raced : Bool := false

namespace TaskGroup

/-- A thread submits a task, and memory and a new thread can be had or not; the owner of a task cancels it, returns from
`xTaskWait`, or drops the handle; a thread calls `xTaskGroupWait`, finds no task pending, pops the done list; a worker takes
its next step. -/
inductive Act (ι : Type*)
  | submit (θ : ι) (memOk createOk : Bool)
  | cancel (t : ℕ)
  | wait (t : ℕ)
  | forget (t : ℕ)
  | groupWait (θ : ι)
  | leave (θ : ι)
  | drain (θ : ι)
  | worker (i : ℕ)
  deriving DecidableEq

variable {ι : Type*} [DecidableEq ι]

def setTask (s : TaskGroup ι) (t : ℕ) (f : Task ι → Task ι) : TaskGroup ι :=
  { s with tasks := Function.update s.tasks t ((s.tasks t).map f) }

def setWorker (s : TaskGroup ι) (i : ℕ) (x : WorkerPhase) : TaskGroup ι := { s with workers := s.workers.set i x }

/-- `spawn_one_worker`. -/
def spawnOneWorker (s : TaskGroup ι) (createOk : Bool) : TaskGroup ι :=
  if s.maxThreads ≤ s.workers.length then s
  else if createOk then { s with workers := s.workers ++ [.looping] }
  else { s with failed := true }

/-- There is memory for a task, and room in the queue. -/
def Accepts (s : TaskGroup ι) (memOk : Bool) : Prop := memOk = true ∧ (s.qcap = 0 ∨ s.queue.length < s.qcap)

instance (s : TaskGroup ι) (memOk : Bool) : Decidable (s.Accepts memOk) := inferInstanceAs (Decidable (_ ∧ _))

/-- `xTaskSubmit`. -/
def taskSubmit (s : TaskGroup ι) (θ : ι) (memOk createOk : Bool) : TaskGroup ι :=
  if s.Accepts memOk then
    let u := { s with
      queue := s.queue ++ [s.accepted]
      tasks := Function.update s.tasks s.accepted (some { owner := θ })
      accepted := s.accepted + 1
      pending := s.pending + 1 }
    if 0 < s.idle then u else u.spawnOneWorker createOk
  else s

/-- The next step of `worker_loop`. -/
def stepWorker (s : TaskGroup ι) (i : ℕ) : WorkerPhase → Option (TaskGroup ι)
  | .looping =>
    match s.queue with
    | t :: rest => some ({ s with queue := rest }.setWorker i (.claiming t))
    | [] => some ({ s with idle := s.idle + 1 }.setWorker i .waiting)
  | .waiting =>
    match s.queue with
    | t :: rest => some ({ s with queue := rest, idle := s.idle - 1 }.setWorker i (.claiming t))
    | [] => none
  | .claiming t =>
    if (s.tasks t).map Task.state = some .queued then
      some ((s.setTask t fun x => { x with state := .running }).setWorker i (.running t))
    else some (s.setWorker i (.pushing t))
  | .running t => some ({ s with log := s.log ++ [t] }.setWorker i (.storing t))
  | .storing t => some ((s.setTask t fun x => { x with state := .done }).setWorker i (.pushing t))
  | .pushing t => some ({ s with doneList := s.doneList ++ [t] }.setWorker i (.signalling t))
  | .signalling t => some ((s.setTask t fun x => { x with note := true }).setWorker i (.counting t))
  | .counting t => some ({ s with pending := s.pending - 1, finished := s.finished ++ [t] }.setWorker i .looping)

/-- `drain_done`, one turn. -/
def drainOne (s : TaskGroup ι) (θ : ι) : TaskGroup ι :=
  match s.doneList with
  | t :: rest =>
    { s with
      doneList := rest
      tasks := Function.update s.tasks t none
      early := s.early || s.workers.any fun x => x.uses = some t
      stolen := s.stolen || (s.tasks t).any Task.held }
  | [] => { s with drainers := s.drainers.erase θ }

def Held (s : TaskGroup ι) (t : ℕ) : Prop := (s.tasks t).any Task.held = true

instance (s : TaskGroup ι) (t : ℕ) : Decidable (s.Held t) := inferInstanceAs (Decidable (_ = true))

/-- The tasks of a thread that it does not use any more. -/
def releaseAll (s : TaskGroup ι) (θ : ι) : TaskGroup ι :=
  { s with tasks := fun t => (s.tasks t).map fun x => { x with held := x.held && decide (x.owner ≠ θ) } }

/-- A thread that is not in `xTaskGroupWait`. -/
def Out (s : TaskGroup ι) (θ : ι) : Prop := θ ∉ s.waiters ∧ θ ∉ s.drainers

instance (s : TaskGroup ι) (θ : ι) : Decidable (s.Out θ) := inferInstanceAs (Decidable (_ ∧ _))

def Raced (s : TaskGroup ι) (θ : ι) : Prop := ∃ η ∈ s.drainers, η ≠ θ

instance (s : TaskGroup ι) (θ : ι) : Decidable (s.Raced θ) := inferInstanceAs (Decidable (∃ η ∈ s.drainers, η ≠ θ))

def step (s : TaskGroup ι) : Act ι → Option (TaskGroup ι)
  | .submit θ memOk createOk => if s.Out θ then some (s.taskSubmit θ memOk createOk) else none
  | .cancel t =>
    if s.Held t then
      if (s.tasks t).map Task.state = some .queued then
        some { s.setTask t fun x => { x with state := .cancelled } with cancels := s.cancels ++ [t] }
      else some s
    else none
  | .wait t =>
    if s.Held t ∧ (s.tasks t).map Task.note = some true then some (s.setTask t fun x => { x with held := false }) else none
  | .forget t => if s.Held t then some (s.setTask t fun x => { x with held := false }) else none
  | .groupWait θ =>
    if s.Out θ then some { s.releaseAll θ with waiters := θ :: s.waiters } else none
  | .leave θ =>
    if θ ∈ s.waiters ∧ s.pending ≤ 0 then
      some { s with waiters := s.waiters.erase θ, drainers := θ :: s.drainers }
    else none
  | .drain θ =>
    if θ ∈ s.drainers then some { s.drainOne θ with raced := s.raced || decide (s.Raced θ) } else none
  | .worker i =>
    match s.workers[i]? with
    | some x => s.stepWorker i x
    | none => none

/-! ### The property -/

def free (s : TaskGroup ι) : ℕ := s.workers.countP fun x => x.hand = none

/-- The function of a task is called once at most, and never if it was cancelled; a task that is finished was called or
cancelled; the count is that of the accepted tasks that are not finished; no struct is freed while its worker or its owner
uses it, and the done list has one consumer; and if more tasks are queued than workers have nothing to do, there are as many
workers as may be, or the creation of one has failed. -/
structure Sound (s : TaskGroup ι) : Prop where
  once : s.log.Nodup
  cancelled : ∀ t ∈ s.cancels, t ∉ s.log
  finished : ∀ t ∈ s.finished, t ∈ s.log ∨ t ∈ s.cancels
  kept : ∀ t < s.accepted, t ∈ s.finished ∨ t ∈ s.queue ∨ ∃ x ∈ s.workers, x.hand = some t
  pending : s.pending = s.accepted - s.finished.length ∧ s.finished.Nodup
  early : s.early = false
  stolen : s.stolen = false
  raced : s.raced = false
  busy : s.free < s.queue.length → s.maxThreads ≤ s.workers.length ∨ s.failed = true

/-- A task that counts on a waiting worker finds one that no other counts on; and a thread that drains is alone, and pops a
task whose note is signalled and whose owner has no use for it. -/
def Clean (s : TaskGroup ι) : Act ι → Prop
  | .submit _ memOk _ =>
    s.Accepts memOk → 0 < s.idle → s.queue.length < s.free ∨ s.maxThreads ≤ s.workers.length ∨ s.failed = true
  | .drain θ => ¬s.Raced θ ∧ ∀ t ∈ s.doneList.head?, (s.tasks t).map Task.note = some true ∧ ¬s.Held t
  | _ => True

instance (s : TaskGroup ι) : (a : Act ι) → Decidable (s.Clean a)
  | .submit _ memOk _ => inferInstanceAs (Decidable
      (s.Accepts memOk → 0 < s.idle → s.queue.length < s.free ∨ s.maxThreads ≤ s.workers.length ∨ s.failed = true))
  | .drain θ => inferInstanceAs (Decidable
      (¬s.Raced θ ∧ ∀ t ∈ s.doneList.head?, (s.tasks t).map Task.note = some true ∧ ¬s.Held t))
  | .cancel _ | .wait _ | .forget _ | .groupWait _ | .leave _ | .worker _ => isTrue trivial

end TaskGroup

end Libx.Base
