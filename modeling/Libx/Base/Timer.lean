import Libx.Core.IndexedHeap
import Libx.Core.Run

/-!
# Libx.Base.Timer — the timer thread's tasks

base/timer.c: tasks in a heap, expired by the timer thread, then run by a worker of the group or by the caller of
`xTimerPoll`.  A task is known by the number of its submission; its handle is the address of its struct, which the slab
gives out again.
-/

namespace Libx.Base

open Libx.Core (IndexedHeap)

/-- `xTimerTask_`; `heap_idx` is noted in the heap, and `fn` and `arg` are those of the submission `id`. -/
structure TimerTask where
  deadline : UInt64 := 0
  id : ℕ := 0
  cancelled : Bool := false

/-- `xTimer_`, with or without a group; `fired` is the queue for `xTimerPoll`, or what the group was given.  Then the
handles of the accepted tasks, the tasks whose function was called, those for which `xTimerCancel` returned Ok, those for
which it returned another code, those whose struct is returned; and whether a cancel took another task out of the heap,
and whether a struct was used that is in the slab. -/
structure Timer where
  group : Bool
  tasks : ℕ → TimerTask := fun _ => {}
  live : ℕ → Bool := fun _ => false
  heap : IndexedHeap ℕ := {}
  fired : List ℕ := []
  handles : List ℕ := []
  log : List ℕ := []
  cancels : List ℕ := []
  refused : List ℕ := []
  returned : List ℕ := []
  robbed : Bool := false
  faulted : Bool := false

namespace Timer

/-- What is called, and what the threads do: `mem` is the slot that the slab answers, `pushOk` whether the heap has room,
`submitOk` whether the group takes the task. -/
inductive Act
  | submitAfter (now delay : UInt64) (mem : Option ℕ) (pushOk : Bool)
  | submitAt (abs : UInt64) (mem : Option ℕ) (pushOk : Bool)
  | expire (now : UInt64) (submitOk : Bool)
  | poll
  | worker (i : ℕ)
  | cancel (id : ℕ)
  deriving DecidableEq

/-- `cmp_task`. -/
def cmpTask (s : Timer) (a b : ℕ) : Bool := (s.tasks a).deadline < (s.tasks b).deadline

/-- `xSlabMtFree`. -/
def slabFree (s : Timer) (a : ℕ) : Timer :=
  if s.live a then { s with live := Function.update s.live a false } else { s with faulted := true }

def taskFree (s : Timer) (a : ℕ) : Timer :=
  { s.slabFree a with returned := s.returned ++ [(s.tasks a).id] }

def taskInit (s : Timer) (a : ℕ) (abs : UInt64) : Timer :=
  { s with
    tasks := Function.update s.tasks a { deadline := abs, id := s.handles.length }
    live := Function.update s.live a true
    heap := { s.heap with idx := Function.update s.heap.idx a none } }

/-- `submit`; the slab gives out no slot that is in use. -/
def submit (s : Timer) (abs : UInt64) (mem : Option ℕ) (pushOk : Bool) : Timer :=
  match mem.filter fun a => !s.live a with
  | none => s
  | some a =>
    let u := s.taskInit a abs
    if pushOk then { u with heap := u.heap.push u.cmpTask a, handles := s.handles ++ [a] } else u.slabFree a

/-- `fire`. -/
def fire (s : Timer) (a : ℕ) (submitOk : Bool) : Timer :=
  if (s.tasks a).cancelled then s.taskFree a
  else if s.group ∧ submitOk = false then s.taskFree a
  else { s with fired := s.fired ++ [a] }

/-- `timer_thread`, when the first deadline is over. -/
def expire (s : Timer) (now : UInt64) (submitOk : Bool) : Option Timer :=
  if h : 0 < s.heap.data.size then
    if (s.tasks s.heap.data[0]).deadline ≤ now then
      some (fire { s with heap := s.heap.pop s.cmpTask } s.heap.data[0] submitOk)
    else none
  else none

/-- A task that was fired is run: `dispatch_wrapper`, or a turn of `xTimerPoll`. -/
def run (s : Timer) (i : ℕ) : Option Timer :=
  match s.fired[i]? with
  | some a =>
    if s.live a then
      some (taskFree { s with fired := s.fired.eraseIdx i, log := s.log ++ [(s.tasks a).id] } a)
    else some { s with faulted := true }
  | none => none

/-- `xTimerCancel` of the task `id`, and whether it returns Ok. -/
def timerCancel (s : Timer) (id a : ℕ) : Timer :=
  if s.live a then
    match (s.tasks a).cancelled, s.heap.idx a with
    | false, some i =>
      let h := s.heap.removeAt s.cmpTask i
      taskFree { s with
        heap := { h with idx := Function.update h.idx a none }
        tasks := Function.update s.tasks a { s.tasks a with cancelled := true }
        robbed := s.robbed || decide (∃ b ∈ s.heap.data[i]?, b ≠ a)
        cancels := s.cancels ++ [id] } a
    | _, _ => { s with refused := s.refused ++ [id] }
  else { s with faulted := true }

/-- One atomic step; `xTimerPoll` is a run of its turns.  A task is cancelled while its function has not been called. -/
def step (s : Timer) : Act → Option Timer
  | .submitAfter now delay mem pushOk => some (s.submit (now + delay) mem pushOk)
  | .submitAt abs mem pushOk => some (s.submit abs mem pushOk)
  | .expire now submitOk => s.expire now submitOk
  | .poll => if s.group then none else s.run 0
  | .worker i => if s.group then s.run i else none
  | .cancel id =>
    match s.handles[id]? with
    | some a => if id ∈ s.log then none else some (s.timerCancel id a)
    | none => none

/-! ### The property -/

/-- The struct at `a` is that of the task `id`. -/
def Is (s : Timer) (a id : ℕ) : Prop := (s.tasks a).id = id ∧ s.handles[id]? = some a

/-- **Exact**: no struct is used or returned that is not in use; a task is called once at most, cancelled once at most, and
not both; one that is neither is in the heap or was fired and is still to be called, and one that was refused is not
cancelled; no cancel takes another task out of the heap; and the structs that have been returned are those of the tasks
called or cancelled, each once. -/
structure Exact (s : Timer) : Prop where
  safe : s.faulted = false
  once : s.log.Nodup
  cancelledOnce : s.cancels.Nodup
  cancelled : ∀ id ∈ s.cancels, id ∉ s.log
  refused : ∀ id ∈ s.refused, id ∉ s.cancels
  kept : ∀ id < s.handles.length, id ∈ s.cancels ∨ id ∈ s.log ∨ ∃ a, (a ∈ s.heap.data ∨ a ∈ s.fired) ∧ s.Is a id
  robbed : s.robbed = false
  returned : s.returned.Nodup ∧ ∀ id, id ∈ s.returned ↔ id ∈ s.log ∨ id ∈ s.cancels
  held : ∀ a, s.live a = true ↔ a ∈ s.heap.data ∨ a ∈ s.fired

/-- A task is cancelled while it is in the heap, and the group takes what the timer thread hands to it. -/
def Clean (s : Timer) : Act → Prop
  | .cancel id => ∀ a ∈ s.handles[id]?, a ∈ s.heap.data ∧ (s.tasks a).id = id
  | .expire _ submitOk => s.group = true → submitOk = true
  | _ => True

instance (s : Timer) : (a : Act) → Decidable (s.Clean a)
  | .cancel id => inferInstanceAs (Decidable (∀ a ∈ s.handles[id]?, a ∈ s.heap.data ∧ (s.tasks a).id = id))
  | .expire _ submitOk => inferInstanceAs (Decidable (s.group = true → submitOk = true))
  | .submitAfter .. | .submitAt .. | .poll | .worker _ => isTrue trivial

end Timer

end Libx.Base
