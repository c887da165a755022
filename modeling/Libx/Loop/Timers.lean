import Libx.Core.IndexedHeap
import Libx.Core.Run

/-!
# Libx.Loop.Timers — the timers of the event loop

event_timer.c, and of event_private.c `loop_fire_expired_timers`.  A timer is known by the number of its submission, what
its `fn` and `arg` stand for; its handle is the address of its struct, which is used again for later timers.
-/

namespace Libx.Loop

open Libx.Core (IndexedHeap)

abbrev Addr := ℕ

/-- `xEventTimer_`; `heap_idx` is noted in the heap. -/
structure EventTimer where
  deadline : UInt64 := 0
  id : ℕ := 0
  fired : Bool := false

/-- What one iteration has popped at `now`, and how many of the callbacks have been called. -/
structure Batch where
  now : UInt64
  timers : List Addr
  ran : ℕ := 0

/-- The part of `xEventLoop_` that is about timers; then, of every accepted timer, the handle and when it is due, the
callbacks that have been called and when, and the timers of which Cancel was called before. -/
structure TimerLoop where
  timers : Addr → EventTimer := fun _ => {}
  live : Addr → Bool := fun _ => false
  heap : IndexedHeap Addr := {}
  free : List Addr := []
  batches : List Batch := []
  handles : List (Addr × ℕ) := []
  log : List (ℕ × UInt64) := []
  cancels : List ℕ := []
  faulted : Bool := false

namespace TimerLoop

/-- `event_timer_cmp`. -/
def earlier (s : TimerLoop) (a b : Addr) : Bool := (s.timers a).deadline < (s.timers b).deadline

def poolMax : ℕ := 256

/-- `event_timer_alloc`; what calloc answers is no memory that is in use. -/
def timerAlloc (s : TimerLoop) (mem : Option Addr) : Option (Addr × TimerLoop) :=
  match s.free with
  | a :: rest => some (a, { s with free := rest })
  | [] =>
    match mem.filter fun a => !s.live a with
    | some a => some (a, { s with live := Function.update s.live a true })
    | none => none

/-- `event_timer_free`. -/
def timerFree (s : TimerLoop) (a : Addr) : TimerLoop :=
  if s.free.length < poolMax then { s with free := a :: s.free }
  else { s with live := Function.update s.live a false }

def timerInit (s : TimerLoop) (a : Addr) (deadline : UInt64) : TimerLoop :=
  { s with
    timers := Function.update s.timers a { deadline, id := s.handles.length }
    heap := { s.heap with idx := Function.update s.heap.idx a none } }

/-- `submit_timer`, and when the timer is due. -/
def submitTimer (s : TimerLoop) (deadline : UInt64) (due : ℕ) (mem : Option Addr) (pushOk : Bool) :
    Option Addr × TimerLoop :=
  match s.timerAlloc mem with
  | none => (none, s)
  | some (a, s) =>
    let s := s.timerInit a deadline
    if pushOk then (some a, { s with heap := s.heap.push s.earlier a, handles := s.handles ++ [(a, due)] })
    else (none, s.timerFree a)

/-- `xEventLoopTimerCancel` on a handle. -/
def cancelHandle (s : TimerLoop) (a : Addr) : Bool × TimerLoop :=
  if s.live a then
    match (s.timers a).fired, s.heap.idx a with
    | false, some i =>
      let h := s.heap.removeAt s.earlier i
      (true, timerFree { s with heap := { h with idx := Function.update h.idx a none } } a)
    | _, _ => (false, s)
  else (false, { s with faulted := true })

/-- `xEventLoopTimerCancel` of a timer. -/
def timerCancel (s : TimerLoop) (id : ℕ) : Option (Bool × TimerLoop) :=
  match s.handles[id]? with
  | none => none
  | some (a, _) =>
    some (cancelHandle
      (if id ∈ s.log.map Prod.fst then s else { s with cancels := s.cancels ++ [id] }) a)

def popTop (s : TimerLoop) (a : Addr) : TimerLoop :=
  { s with
    heap := s.heap.pop s.earlier
    timers := Function.update s.timers a { s.timers a with fired := true } }

/-- The loop of `loop_fire_expired_timers` that fills the batch, which has been doubled `k` times; `fails` is the doubling
for which there is no memory. -/
def popExpired (now : UInt64) (fails : Option ℕ) (s : TimerLoop) (k : ℕ) (batch : List Addr) : TimerLoop × List Addr :=
  if h : 0 < s.heap.data.size then
    if now < (s.timers s.heap.data[0]).deadline then (s, batch)
    else if batch.length = 128 * 2 ^ k then
      if fails = some k then (s.popTop s.heap.data[0], batch)
      else popExpired now fails (s.popTop s.heap.data[0]) (k + 1) (batch ++ [s.heap.data[0]])
    else popExpired now fails (s.popTop s.heap.data[0]) k (batch ++ [s.heap.data[0]])
  else (s, batch)
termination_by s.heap.data.size
decreasing_by
  all_goals
    show (s.heap.pop s.earlier).data.size < _
    rw [IndexedHeap.pop_size]
    omega

/-- `loop_fire_expired_timers` up to the callbacks. -/
def fireExpired (s : TimerLoop) (now : UInt64) (fails : Option ℕ) : TimerLoop :=
  { (popExpired now fails s 0 []).1 with
    batches := { now, timers := (popExpired now fails s 0 []).2 } :: (popExpired now fails s 0 []).1.batches }

def runNext (s : TimerLoop) : Option TimerLoop :=
  match s.batches with
  | [] => none
  | b :: bs =>
    match b.timers[b.ran]? with
    | none => none
    | some a =>
      some { s with log := s.log ++ [((s.timers a).id, b.now)], batches := { b with ran := b.ran + 1 } :: bs }

/-- The end of `loop_fire_expired_timers`: the structs of the batch are recycled. -/
def recycle (s : TimerLoop) : Option TimerLoop :=
  match s.batches with
  | [] => none
  | b :: bs =>
    if b.ran < b.timers.length then none else some (b.timers.foldl timerFree { s with batches := bs })

end TimerLoop

/-- What is called, from outside or from a callback, and what the loop does. -/
inductive TimerStep
  | timerAfter (now delay : UInt64) (mem : Option Addr) (pushOk : Bool)
  | timerAt (abs : UInt64) (mem : Option Addr) (pushOk : Bool)
  | timerCancel (id : ℕ)
  | fire (now : UInt64) (fails : Option ℕ)
  | run
  | recycle

/-- One step; after freed memory was used there is none. -/
def timerStep (s : TimerLoop) (m : TimerStep) : Option TimerLoop :=
  if s.faulted then none
  else
    match m with
    | .timerAfter now delay mem pushOk => some (s.submitTimer (now + delay) (now.toNat + delay.toNat) mem pushOk).2
    | .timerAt abs mem pushOk => some (s.submitTimer abs abs.toNat mem pushOk).2
    | .timerCancel id => (s.timerCancel id).map Prod.snd
    | .fire now fails => some (s.fireExpired now fails)
    | .run => s.runNext
    | .recycle => s.recycle

namespace TimerLoop

def Ran (s : TimerLoop) (id : ℕ) : Prop := id ∈ s.log.map Prod.fst

instance (s : TimerLoop) (id : ℕ) : Decidable (s.Ran id) := inferInstanceAs (Decidable (id ∈ s.log.map Prod.fst))

/-- The struct at `a` is that of the timer `id`, as it was submitted. -/
def Is (s : TimerLoop) (a : Addr) (id : ℕ) : Prop :=
  (s.timers a).id = id ∧ s.handles[id]? = some (a, (s.timers a).deadline.toNat)

/-- **Exact**: a callback is called once, not before it is due, and not after a Cancel; every other timer is in the heap
as it was submitted, or popped by an iteration that goes on, to be called by its end, or has been called. -/
structure Exact (s : TimerLoop) : Prop where
  safe : s.faulted = false
  once : (s.log.map Prod.fst).Nodup
  due : ∀ e ∈ s.log, ∃ a d, s.handles[e.1]? = some (a, d) ∧ d ≤ e.2.toNat
  cancelled : ∀ id ∈ s.cancels, ¬s.Ran id
  kept : ∀ id < s.handles.length, id ∈ s.cancels ∨ s.Ran id ∨ (∃ a ∈ s.heap.data, s.Is a id) ∨
    ∃ b ∈ s.batches, ∃ a ∈ b.timers.drop b.ran, s.Is a id ∧ (s.timers a).deadline ≤ b.now

end TimerLoop

def TimerLoop.expired (s : TimerLoop) (now : UInt64) : ℕ :=
  s.heap.data.toList.countP fun a => decide ((s.timers a).deadline ≤ now)

/-- The calls for which the timers are exact: the deadline does not wrap, a Cancel is of a timer in the heap, or of one
that has been called or cancelled and whose struct is not freed and not that of a timer in the heap; and there is room
for all that is popped. -/
def Clean (s : TimerLoop) : TimerStep → Prop
  | .timerAfter now delay _ _ => now.toNat + delay.toNat < 2 ^ 64
  | .timerCancel id => ∀ e ∈ s.handles[id]?,
      (e.1 ∈ s.heap.data ∧ (s.timers e.1).id = id) ∨
        ((s.Ran id ∨ id ∈ s.cancels) ∧ s.live e.1 ∧ e.1 ∉ s.heap.data)
  | .fire now fails => ∀ k ∈ fails, s.expired now ≤ 128 * 2 ^ k
  | _ => True

instance (s : TimerLoop) : (m : TimerStep) → Decidable (Clean s m)
  | .timerAfter now delay _ _ => inferInstanceAs (Decidable (now.toNat + delay.toNat < 2 ^ 64))
  | .timerAt .. => .isTrue trivial
  | .timerCancel id => inferInstanceAs (Decidable (∀ e ∈ s.handles[id]?, _ ∨ _))
  | .fire now fails => inferInstanceAs (Decidable (∀ k ∈ fails, s.expired now ≤ 128 * 2 ^ k))
  | .run => .isTrue trivial
  | .recycle => .isTrue trivial

end Libx.Loop
