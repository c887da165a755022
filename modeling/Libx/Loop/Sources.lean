import Libx.Core.Run

/-!
# Libx.Loop.Sources — the event sources of the epoll loop

event_epoll.c, and of event_private.c the array of the sources.  A source is known by the number of its struct, in the
order of their making; what the kernel reports is any list of descriptors that are registered.
-/

namespace Libx.Loop

abbrev Ptr := ℕ

/-- `xEventSource_`. -/
structure EventSource where
  fd : ℕ := 0
  mask : ℕ := 0
  id : ℕ := 0
  deleted : Bool := false

/-- `epoll_data_t`, as it was written. -/
inductive EpollData
  | ptr (a : Ptr)
  | fd (f : ℕ)
  deriving DecidableEq

/-- `data.fd`, as it is read: of a pointer the low 32 bits. -/
def EpollData.efd : EpollData → ℕ
  | ptr a => a % 2 ^ 32
  | fd f => f

/-- Whose registration an event is of. -/
inductive Origin
  | source (id : ℕ)
  | wake
  | signal (signo : ℕ)
  deriving DecidableEq

structure Registration where
  data : EpollData
  origin : Origin

/-- `epoll_event`. -/
structure EpollEvent where
  data : EpollData
  origin : Origin
  pollIn : Bool := false
  pollOut : Bool := false

/-- What one `xEventWait` has got, and how many of the events have been dispatched. -/
structure EpollBatch where
  events : List EpollEvent
  next : ℕ := 0

/-- What the loop does with an event. -/
inductive Treated
  | called (id : ℕ) (readable writable : Bool)
  | skipped
  | wake
  | signal (signo : ℕ)
  deriving DecidableEq

/-- An event that has been dispatched, and whether its source had been deleted. -/
structure Delivery where
  event : EpollEvent
  treated : Treated
  deleted : Bool

/-- The part of `xEventLoopEpoll_` that is about sources; then, of every source, its struct, the sources that have been
deleted, that have been freed, and that have been deleted since the last sweep, and the deliveries. -/
structure SourceLoop where
  wakeFd : ℕ
  sources : Ptr → EventSource := fun _ => {}
  live : Ptr → Bool := fun _ => false
  items : List Ptr := []
  interest : ℕ → Option Registration
  signals : ℕ → Option ℕ := fun _ => none
  batches : List EpollBatch := []
  structs : List Ptr := []
  dels : List ℕ := []
  freed : List ℕ := []
  unswept : List ℕ := []
  log : List Delivery := []
  faulted : Bool := false

namespace SourceLoop

/-- `xEventLoopCreate`: the eventfd is registered. -/
def create (wakeFd : ℕ) : SourceLoop where
  wakeFd
  interest := Function.update (fun _ => none) wakeFd (some ⟨.fd wakeFd, .wake⟩)

/-- `source_array_add`; what calloc answers is no memory that is in use. -/
def arrayAdd (s : SourceLoop) (fd mask : ℕ) (mem : Option Ptr) : Option (Ptr × SourceLoop) :=
  match mem.filter fun a => !s.live a with
  | none => none
  | some a =>
    some (a, { s with
      sources := Function.update s.sources a { fd, mask, id := s.structs.length }
      live := Function.update s.live a true
      items := s.items ++ [a]
      structs := s.structs ++ [a] })

/-- `source_array_remove`. -/
def arrayRemove (s : SourceLoop) (a : Ptr) : SourceLoop :=
  { s with
    sources := Function.update s.sources a { s.sources a with deleted := true }
    dels := s.dels ++ [(s.sources a).id]
    unswept := s.unswept ++ [(s.sources a).id] }

/-- `EPOLL_CTL_ADD` or `EPOLL_CTL_MOD` with a source. -/
def register (s : SourceLoop) (a : Ptr) : SourceLoop :=
  { s with
    interest := Function.update s.interest (s.sources a).fd (some ⟨.ptr a, .source (s.sources a).id⟩) }

/-- `xEventAdd`; a descriptor is not added twice. -/
def eventAdd (s : SourceLoop) (fd mask : ℕ) (mem : Option Ptr) (nonblock ctl : Bool) : Option Ptr × SourceLoop :=
  match s.arrayAdd fd mask mem with
  | none => (none, s)
  | some (a, s) =>
    if nonblock && ctl && (s.interest fd).isNone then (some a, s.register a)
    else (none, s.arrayRemove a)

/-- `xEventMod`; a descriptor that is not registered is not modified. -/
def eventMod (s : SourceLoop) (a : Ptr) (mask : ℕ) (ctl : Bool) : Bool × SourceLoop :=
  if !s.live a then (false, { s with faulted := true })
  else if ctl && (s.interest (s.sources a).fd).isSome then
    (true, { s.register a with sources := Function.update s.sources a { s.sources a with mask } })
  else (false, s)

/-- `xEventDel`. -/
def eventDel (s : SourceLoop) (a : Ptr) : SourceLoop :=
  if !s.live a then { s with faulted := true }
  else { s with interest := Function.update s.interest (s.sources a).fd none }.arrayRemove a

/-- The loop of `source_array_sweep`: what it keeps and what it frees; the last item comes to the place of one that is
freed. -/
def sweepItems (deleted : Ptr → Bool) : List Ptr → List Ptr × List Ptr
  | [] => ([], [])
  | a :: rest =>
    if deleted a then
      match rest with
      | [] => ([], [a])
      | b :: rest =>
        let r := sweepItems deleted ((b :: rest).getLast (List.cons_ne_nil _ _) :: (b :: rest).dropLast)
        (r.1, a :: r.2)
    else
      let r := sweepItems deleted rest
      (a :: r.1, r.2)
termination_by items => items.length
decreasing_by
  all_goals simp

/-- `source_array_sweep`. -/
def arraySweep (s : SourceLoop) : SourceLoop :=
  let r := sweepItems (fun a => (s.sources a).deleted) s.items
  { s with
    items := r.1
    live := fun a => s.live a && !r.2.contains a
    freed := s.freed ++ r.2.map fun a => (s.sources a).id
    unswept := [] }

/-- `signo_valid`. -/
def signoValid (signo : ℕ) : Bool := 0 < signo && signo < 64 && signo != 9 && signo != 19

/-- `find_signal_by_fd`. -/
def findSignalByFd (s : SourceLoop) (fd : ℕ) : Option ℕ :=
  (List.range 64).find? fun n => 0 < n && s.signals n == some fd

/-- `xEventLoopSignalWatch` with a callback: `fd` is the pipe's end, if one is opened and registered. -/
def signalWatch (s : SourceLoop) (signo : ℕ) (fd : Option ℕ) : Option SourceLoop :=
  if !signoValid signo || (s.signals signo).isSome then some s
  else
    match fd with
    | none => some s
    | some f =>
      -- The pipe is new, so no open descriptor has its number.
      if (s.interest f).isSome || f == s.wakeFd || (s.findSignalByFd f).isSome then none
      else
        some { s with
          signals := Function.update s.signals signo (some f)
          interest := Function.update s.interest f (some ⟨.fd f, .signal signo⟩) }

/-- `xEventLoopSignalWatch` without one. -/
def signalCancel (s : SourceLoop) (signo : ℕ) : SourceLoop :=
  match s.signals signo with
  | none => s
  | some f =>
    { s with
      signals := Function.update s.signals signo none
      interest := Function.update s.interest f none }

def close (s : SourceLoop) (fd : ℕ) : Option SourceLoop :=
  if fd == s.wakeFd || (s.findSignalByFd fd).isSome then none
  else some { s with interest := Function.update s.interest fd none }

/-- `epoll_wait` of `xEventWait`. -/
def beginWait (s : SourceLoop) (ready : List (ℕ × Bool × Bool)) : SourceLoop :=
  let events := ready.filterMap fun p => (s.interest p.1).map fun r => ⟨r.data, r.origin, p.2.1, p.2.2⟩
  { s with batches := { events } :: s.batches }

/-- What `xEventWait` does with an event; nothing is right where it follows a pointer that is none. -/
def treat (s : SourceLoop) (e : EpollEvent) : Option Treated :=
  if e.data.efd = s.wakeFd then some .wake
  else
    match s.findSignalByFd e.data.efd with
    | some n => some (.signal n)
    | none =>
      match e.data with
      | .fd _ => none
      | .ptr a =>
        if s.live a then
          if (s.sources a).deleted then some .skipped else some (.called (s.sources a).id e.pollIn e.pollOut)
        else none

def Deleted (s : SourceLoop) (e : EpollEvent) : Prop := ∃ id ∈ s.dels, e.origin = .source id

instance (s : SourceLoop) (e : EpollEvent) : Decidable (s.Deleted e) :=
  inferInstanceAs (Decidable (∃ id ∈ s.dels, _))

def nextEvent (s : SourceLoop) : Option EpollEvent := s.batches.head?.bind fun b => b.events[b.next]?

def dispatchNext (s : SourceLoop) : Option SourceLoop :=
  match s.nextEvent, s.batches with
  | some e, b :: bs =>
    match s.treat e with
    | none => some { s with faulted := true }
    | some t =>
      some { s with
        batches := { b with next := b.next + 1 } :: bs
        log := s.log ++ [⟨e, t, decide (s.Deleted e)⟩] }
  | _, _ => none

/-- The end of `xEventWait`. -/
def endWait (s : SourceLoop) : Option SourceLoop :=
  match s.batches with
  | b :: bs => if b.next < b.events.length then none else some { s with batches := bs }.arraySweep
  | [] => none

/-- What is called, from outside or from a callback, and what the loop does. -/
inductive Step
  | eventAdd (fd mask : ℕ) (mem : Option Ptr) (nonblock ctl : Bool)
  | eventMod (id mask : ℕ) (ctl : Bool)
  | eventDel (id : ℕ)
  | signalWatch (signo : ℕ) (fd : Option ℕ)
  | signalCancel (signo : ℕ)
  | close (fd : ℕ)
  | beginWait (ready : List (ℕ × Bool × Bool))
  | dispatch
  | endWait

/-- One step; after freed memory was used there is none. -/
def step (s : SourceLoop) (m : Step) : Option SourceLoop :=
  if s.faulted then none
  else
    match m with
    | .eventAdd fd mask mem nonblock ctl => some (s.eventAdd fd mask mem nonblock ctl).2
    | .eventMod id mask ctl => s.structs[id]?.map fun a => (s.eventMod a mask ctl).2
    | .eventDel id => s.structs[id]?.map s.eventDel
    | .signalWatch signo fd => s.signalWatch signo fd
    | .signalCancel signo => some (s.signalCancel signo)
    | .close fd => s.close fd
    | .beginWait ready => some (s.beginWait ready)
    | .dispatch => s.dispatchNext
    | .endWait => s.endWait

end SourceLoop

/-- An event goes to the source it is of, if that is not deleted, and is else what it is. -/
def Delivery.Right (d : Delivery) : Prop :=
  match d.event.origin with
  | .source id =>
    (d.deleted = false ∧ d.treated = .called id d.event.pollIn d.event.pollOut) ∨ (d.deleted = true ∧ d.treated = .skipped)
  | .wake => d.treated = .wake
  | .signal n => d.treated = .signal n

namespace SourceLoop

/-- **Guarded**: every event is delivered right, and none to a source that had been deleted; a deleted source is freed
by the next sweep, once, and not while a batch holds an event of it. -/
structure Guarded (s : SourceLoop) : Prop where
  safe : s.faulted = false
  delivered : ∀ d ∈ s.log, d.Right
  freedOnce : s.freed.Nodup
  freed : ∀ id ∈ s.freed, id ∈ s.dels
  swept : ∀ id ∈ s.dels, id ∈ s.freed ∨ id ∈ s.unswept
  held : ∀ b ∈ s.batches, ∀ e ∈ b.events, ∀ id, e.origin = .source id → id ∉ s.freed

/-- The pointer of an event is not, in its low 32 bits, one of the loop's own descriptors; and of an event of a signal's
pipe the signal is watched. -/
def Apart (s : SourceLoop) (e : EpollEvent) : Prop :=
  match e.origin with
  | .source _ => e.data.efd ≠ s.wakeFd ∧ s.findSignalByFd e.data.efd = none
  | .wake => True
  | .signal n => s.signals n = some e.data.efd

instance (s : SourceLoop) (e : EpollEvent) : Decidable (s.Apart e) :=
  match h : e.origin with
  | .source _ => decidable_of_iff (e.data.efd ≠ s.wakeFd ∧ s.findSignalByFd e.data.efd = none) (by rw [Apart, h])
  | .wake => .isTrue (by rw [Apart, h]; trivial)
  | .signal n => decidable_of_iff (s.signals n = some e.data.efd) (by rw [Apart, h])

/-- The calls for which the sources are guarded: Mod and Del are of a source that has not been deleted; an event that is
dispatched is told apart; and when an inner wait ends no outer batch holds an event of a deleted source. -/
def Clean (s : SourceLoop) : Step → Prop
  | .eventMod id _ _ => id ∉ s.dels
  | .eventDel id => id ∉ s.dels
  | .dispatch => ∀ e ∈ s.nextEvent, s.Apart e
  | .endWait => ∀ b ∈ s.batches.tail, ∀ e ∈ b.events, ¬s.Deleted e
  | _ => True

instance (s : SourceLoop) : (m : Step) → Decidable (s.Clean m)
  | .eventAdd .. => .isTrue trivial
  | .eventMod id _ _ => inferInstanceAs (Decidable (id ∉ s.dels))
  | .eventDel id => inferInstanceAs (Decidable (id ∉ s.dels))
  | .signalWatch .. => .isTrue trivial
  | .signalCancel _ => .isTrue trivial
  | .close _ => .isTrue trivial
  | .beginWait _ => .isTrue trivial
  | .dispatch => inferInstanceAs (Decidable (∀ e ∈ s.nextEvent, s.Apart e))
  | .endWait => inferInstanceAs (Decidable (∀ b ∈ s.batches.tail, ∀ e ∈ b.events, ¬s.Deleted e))

end SourceLoop

end Libx.Loop
