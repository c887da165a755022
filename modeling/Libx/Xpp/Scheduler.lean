import Libx.Xpp.Join

/-!
# Libx.Xpp.Scheduler — the multi-thread scheduler

runtime/multi_thread_scheduler.cpp and .h, one atomic step at a time: `worker_main`, `schedule`, `spawn` and the handles.
A local queue is a list, the oldest first; what its single steps make of it is the matter of the work-stealing queue.
-/

namespace Libx.Xpp

/-- Where a worker is in its loop: it is about to pop its queue; it moves tasks over from the global queue, of which it
has moved `n`, with the task it has popped, if any; it pops again; it is about to steal from the `i`-th next worker; it
has a task and is about to try the first CAS, the second; it polls it; the poll returned false, true; it is parked. -/
inductive WorkerPhase
  | popping
  | grabbing (t : Option ℕ) (n : ℕ)
  | repopping
  | stealing (i : ℕ)
  | trying (t : ℕ)
  | tryingDetached (t : ℕ)
  | polling (t : ℕ)
  | pausing (t : ℕ)
  | finishing (t : ℕ)
  | parked
  deriving DecidableEq

/-- The task that a worker has taken off a queue and not claimed. -/
def WorkerPhase.hand : WorkerPhase → Option ℕ
  | .grabbing t _ => t
  | .trying t | .tryingDetached t => some t
  | _ => none

def WorkerPhase.claimed : WorkerPhase → Option ℕ
  | .polling t | .pausing t | .finishing t => some t
  | _ => none

/-- A task: its state, whether its promise resolved, whether it was woken (or spawned) since its last poll began, whether
its handle is there, whether it was detached while it ran, whether it is deleted; and the workers that have polled it,
whose wakers are around. -/
structure Task (m : ℕ) where
  state : TaskState := .pending
  resolved : Bool := false
  woken : Bool := true
  handle : Bool := true
  marked : Bool := false
  freed : Bool := false
  wakers : Fin m → Bool := fun _ => false

/-- The queues, the workers with their ticks, the tasks, of which `next` were spawned; and whether a thread has pushed
onto another's queue. -/
structure Scheduler (m : ℕ) where
  locals : Fin m → List ℕ := fun _ => []
  global : List ℕ := []
  workers : Fin m → WorkerPhase := fun _ => .popping
  ticks : Fin m → ℕ := fun _ => 0
  tasks : ℕ → Task m := fun _ => {}
  next : ℕ := 0
  foreign : Bool := false

namespace Scheduler

/-- A thread: a worker, or one from outside. -/
abbrev Thread (m : ℕ) := Option (Fin m)

/-- A thread spawns a task; a thread wakes a task through a waker that was made when worker `w` polled it; the handle of a
task is dropped; a task that is completed is deleted; a worker takes the next step of its loop (`b`: the steal meets no
other, the poll returns true). -/
inductive Act (m : ℕ)
  | spawn (θ : Thread m)
  | wake (θ : Thread m) (w : Fin m) (t : ℕ)
  | drop (t : ℕ)
  | delete (t : ℕ)
  | worker (w : Fin m) (b : Bool)
  deriving DecidableEq

variable {m : ℕ}

def capacity : ℕ := 256

def setWorker (s : Scheduler m) (w : Fin m) (x : WorkerPhase) : Scheduler m :=
  { s with workers := Function.update s.workers w x }

def setLocal (s : Scheduler m) (w : Fin m) (l : List ℕ) : Scheduler m :=
  { s with locals := Function.update s.locals w l }

def setTask (s : Scheduler m) (t : ℕ) (x : Task m) : Scheduler m :=
  { s with tasks := Function.update s.tasks t x }

def pushGlobal (s : Scheduler m) (t : ℕ) : Scheduler m := { s with global := s.global ++ [t] }

/-- `push` onto a worker's queue, or `push_global` if it is full. -/
def schedule (s : Scheduler m) (w : Fin m) (t : ℕ) : Scheduler m :=
  if (s.locals w).length < capacity then s.setLocal w (s.locals w ++ [t]) else s.pushGlobal t

def claim (s : Scheduler m) (w : Fin m) (t : ℕ) : Scheduler m :=
  (s.setWorker w (.polling t)).setTask t { s.tasks t with
    state := .running, woken := false, wakers := Function.update (s.tasks t).wakers w true }

def loop (s : Scheduler m) (w : Fin m) : Scheduler m :=
  { s.setWorker w .popping with ticks := Function.update s.ticks w (s.ticks w + 1) }

/-- The worker behind `w`, `i` places on. -/
def victim (w : Fin m) (i : ℕ) : Fin m := ⟨(w + i) % m, Nat.mod_lt _ (Nat.zero_lt_of_lt w.isLt)⟩

/-- The next step of `worker_main`. -/
def stepWorker (s : Scheduler m) (w : Fin m) (b : Bool) : Scheduler m :=
  match s.workers w with
  | .popping =>
    match (s.locals w).getLast? with
    | some t => (s.setLocal w (s.locals w).dropLast).setWorker w
        (if s.ticks w % 64 = 0 then .grabbing (some t) 0 else .trying t)
    | none => s.setWorker w (.grabbing none 0)
  | .grabbing t n =>
    match s.global with
    | u :: rest =>
      if n < 128 ∧ (s.locals w).length < capacity then
        { s.setLocal w (s.locals w ++ [u]) with
          global := rest, workers := Function.update s.workers w (.grabbing t (n + 1)) }
      else s.setWorker w (match t with | some t => .trying t | none => .repopping)
    | [] => s.setWorker w (match t with | some t => .trying t | none => .repopping)
  | .repopping =>
    match (s.locals w).getLast? with
    | some t => (s.setLocal w (s.locals w).dropLast).setWorker w (.trying t)
    | none => s.setWorker w (.stealing 1)
  | .stealing i =>
    if i < m then
      match s.locals (victim w i) with
      | t :: rest => if b then (s.setLocal (victim w i) rest).setWorker w (.trying t) else s.setWorker w (.stealing (i + 1))
      | [] => s.setWorker w (.stealing (i + 1))
    else s.setWorker w .parked
  | .trying t => if (s.tasks t).state = .pending then s.claim w t else s.setWorker w (.tryingDetached t)
  | .tryingDetached t => if (s.tasks t).state = .detached then s.claim w t else s.setWorker w .popping
  | .polling t =>
    if b then (s.setWorker w (.finishing t)).setTask t { s.tasks t with resolved := true }
    else s.setWorker w (.pausing t)
  | .pausing t => (s.loop w).setTask t { s.tasks t with state := .pending }
  | .finishing t => (s.loop w).setTask t { s.tasks t with state := .completed }
  | .parked => s.setWorker w .popping

def step (s : Scheduler m) : Act m → Option (Scheduler m)
  | .spawn θ =>
    let u := { s.setTask s.next {} with next := s.next + 1 }
    some (match θ with
      | some w => u.schedule w s.next
      | none => u.pushGlobal s.next)
  | .wake θ w t =>
    if t < s.next ∧ (s.tasks t).wakers w then
      some { (s.setTask t { s.tasks t with woken := true }).schedule w t with
        foreign := s.foreign || decide (θ ≠ some w) }
    else none
  | .drop t =>
    if t < s.next ∧ (s.tasks t).handle ∧ (s.tasks t).freed = false then
      some (s.setTask t { s.tasks t with
        state := .detached, handle := false,
        marked := (s.tasks t).marked || decide ((s.tasks t).state = .running),
        freed := decide ((s.tasks t).state = .completed) })
    else none
  | .delete t =>
    if t < s.next ∧ (s.tasks t).state = .completed ∧ (s.tasks t).freed = false then
      some (s.setTask t { s.tasks t with handle := false, freed := true })
    else none
  | .worker w b => some (s.stepWorker w b)

/-! ### The property -/

/-- Where an entry of a task can be. -/
inductive Spot (m : ℕ)
  | loc (w : Fin m)
  | glob
  | hand (w : Fin m)
  deriving DecidableEq

/-- The task is in a queue, or a worker has taken it off one and not claimed it. -/
def At (s : Scheduler m) (t : ℕ) : Spot m → Prop
  | .loc w => t ∈ s.locals w
  | .glob => t ∈ s.global
  | .hand w => (s.workers w).hand = some t

instance (s : Scheduler m) (t : ℕ) : (p : Spot m) → Decidable (s.At t p)
  | .loc w => inferInstanceAs (Decidable (t ∈ s.locals w))
  | .glob => inferInstanceAs (Decidable (t ∈ s.global))
  | .hand w => inferInstanceAs (Decidable ((s.workers w).hand = some t))

def Polled (s : Scheduler m) (t : ℕ) (w : Fin m) : Prop := (s.workers w).claimed = some t

instance (s : Scheduler m) (t : ℕ) (w : Fin m) : Decidable (s.Polled t w) :=
  inferInstanceAs (Decidable ((s.workers w).claimed = some t))

/-- A woken task that has not resolved is queued; a task is queued once and polled by one worker; the local queues are
pushed by their owners; and a task that was detached while it ran is detached until it is completed. -/
structure Sound (s : Scheduler m) : Prop where
  woken : ∀ t < s.next, (s.tasks t).woken = true → (s.tasks t).resolved = false → ∃ p, s.At t p
  once : ∀ t p q, s.At t p → s.At t q → p = q
  nodup : (∀ w, (s.locals w).Nodup) ∧ s.global.Nodup
  polled : ∀ t v w, s.Polled t v → s.Polled t w → v = w
  owner : s.foreign = false
  detached : ∀ t < s.next, (s.tasks t).marked = true → (s.tasks t).state = .detached ∨ (s.tasks t).state = .completed

/-- A task is woken on the thread of the worker its waker belongs to, and while it is not queued; a worker does not try to
claim a task that another polls, or one that is deleted; and it does not put one back to pending that was detached. -/
def Clean (s : Scheduler m) : Act m → Prop
  | .wake θ w t => θ = some w ∧ (∀ v, ¬s.At t (.loc v)) ∧ ¬s.At t .glob ∧ ∀ v, ¬s.At t (.hand v)
  | .worker w _ =>
    match s.workers w with
    | .trying t | .tryingDetached t => (∀ v, ¬s.Polled t v) ∧ (s.tasks t).freed = false
    | .pausing t => (s.tasks t).state ≠ .detached
    | _ => True
  | _ => True

end Scheduler

end Libx.Xpp
