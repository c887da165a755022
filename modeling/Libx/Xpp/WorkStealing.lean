import Mathlib

/-!
# Libx.Xpp.WorkStealing — the queue of an owner and its thieves

runtime/queue.h, one load, store or compare-exchange at a time; the indices are uint32 numbers.
-/

namespace Libx.Xpp

def u32 (x : ℕ) : ℕ := x % 2 ^ 32

/-- `N`, as the static_assert has it. -/
structure Capacity where
  n : ℕ
  pow : n &&& (n - 1) = 0

/-- The slot of an index: `i & kMask`. -/
def Capacity.slot (cap : Capacity) (i : ℕ) : ℕ := i &&& u32 (cap.n - 1)

/-- Where the owner is: in `push` it has the head, has found room, has written the slot; in `pop` it has the head, has
decremented it, has stored it, tries the CAS of the tail, has won, has lost, is about to read the slot. -/
inductive OwnerState (α : Type*)
  | idle
  | pushing (item : α) (h : ℕ)
  | writing (item : α) (h : ℕ)
  | storing (item : α) (h : ℕ)
  | popping (h : ℕ)
  | lowering (h : ℕ)
  | checking (h : ℕ)
  | claiming (h : ℕ)
  | won (h : ℕ)
  | lost (t : ℕ)
  | reading (h : ℕ)
  deriving DecidableEq

/-- Where a thief is in `steal`: it has the tail, has found an item, has read it. -/
inductive ThiefState (α : Type*)
  | idle
  | loaded (t : ℕ)
  | reading (t : ℕ)
  | claiming (t : ℕ) (item : Option α)
  deriving DecidableEq

/-- A `push` that returned false; what a `pop` or a `steal` returned.  Each with the numbers of the pushes whose items
were held when it was decided, the oldest first. -/
inductive Event (α : Type*)
  | refused (held : List ℕ)
  | popped (got : Option α) (held : List ℕ)
  | stolen (got : Option α) (held : List ℕ)
  deriving DecidableEq

namespace Event

/-- The number of the push whose item a call is to return: `pop` takes the newest, `steal` the oldest. -/
def ticket {α : Type*} : Event α → Option ℕ
  | .refused _ => none
  | .popped _ held => held.getLast?
  | .stolen _ held => held.head?

def got {α : Type*} : Event α → Option α
  | .refused _ => none
  | .popped got _ | .stolen got _ => got

/-- A call returned the item of its push, and `pop` none only in front of no items; `push` returned false only in front of
`N`. -/
def Valid {α : Type*} (cap : Capacity) (pushed : List α) (e : Event α) : Prop :=
  match e with
  | .refused held => held.length = cap.n
  | .popped got _ => got = e.ticket.bind (pushed[·]?) ∧ ∀ k ∈ e.ticket, k < pushed.length
  | .stolen got _ => got = e.ticket.bind (pushed[·]?) ∧ ∃ k ∈ e.ticket, k < pushed.length

end Event

/-- The queue, its owner and its thieves; then the items for which `push` returned true, the numbers of those that are
taken, what was held when the owner's `pop` was decided, and what the calls returned. -/
structure WorkStealing (α ι : Type*) where
  head : ℕ := 0
  tail : ℕ := 0
  slots : ℕ → Option α := fun _ => none
  owner : OwnerState α := .idle
  thieves : ι → ThiefState α := fun _ => .idle
  pushed : List α := []
  taken : List ℕ := []
  held : List ℕ := []
  log : List (Event α) := []

/-- What is left of `n` numbered items. -/
def remaining (n : ℕ) (taken : List ℕ) : List ℕ := (List.range n).filter (· ∉ taken)

namespace WorkStealing

/-- A call of `push`, a call of `pop`, the owner's next step; a call of `steal`, a thief's next step, a CAS that fails
without a reason. -/
inductive Act (α ι : Type*)
  | push (item : α)
  | pop
  | owner
  | steal (i : ι)
  | thief (i : ι)
  | spurious (i : ι)
  deriving DecidableEq

variable {α ι : Type*} [DecidableEq ι]

omit [DecidableEq ι] in
/-- The items that were pushed and not taken, the oldest first. -/
def untaken (s : WorkStealing α ι) : List ℕ := remaining s.pushed.length s.taken

omit [DecidableEq ι] in
/-- The owner's `pop` is decided: it takes the newest item. -/
def takeNewest (s : WorkStealing α ι) : WorkStealing α ι :=
  { s with held := s.untaken, taken := s.taken ++ s.untaken.getLast?.toList }

omit [DecidableEq ι] in
/-- `pop` returns. -/
def ret (s : WorkStealing α ι) (got : Option α) : WorkStealing α ι :=
  { s with owner := .idle, log := s.log ++ [.popped got s.held] }

omit [DecidableEq ι] in
def stepOwner (cap : Capacity) (s : WorkStealing α ι) : Option (WorkStealing α ι) :=
  match s.owner with
  | .idle => none
  | .pushing a h =>
    if cap.n ≤ u32 (h + 2 ^ 32 - s.tail) then some { s with owner := .idle, log := s.log ++ [.refused s.untaken] }
    else some { s with owner := .writing a h }
  | .writing a h => some { s with slots := Function.update s.slots (cap.slot h) (some a), owner := .storing a h }
  | .storing a h => some { s with head := u32 (h + 1), owner := .idle, pushed := s.pushed ++ [a] }
  | .popping h =>
    if h = s.tail then some ({ s with held := s.untaken }.ret none)
    else some { s with owner := .lowering (u32 (h + 2 ^ 32 - 1)) }
  | .lowering h => some { s with head := h, owner := .checking h }
  | .checking h =>
    if s.tail < h then some { s.takeNewest with owner := .reading h }
    else if s.tail = h then some { s with owner := .claiming h }
    else some { s with owner := .lost s.tail, held := s.untaken }
  | .claiming h =>
    if s.tail = h then some { s.takeNewest with tail := u32 (h + 1), owner := .won h }
    else some { s with owner := .lost s.tail, held := s.untaken }
  | .won h => some { s with head := u32 (h + 1), owner := .reading h }
  | .lost t => some ({ s with head := t }.ret none)
  | .reading h => some (s.ret (s.slots (cap.slot h)))

def setThief (s : WorkStealing α ι) (i : ι) (x : ThiefState α) : WorkStealing α ι :=
  { s with thieves := Function.update s.thieves i x }

/-- A thief's CAS of the tail succeeds: it takes the oldest item. -/
def stolen (s : WorkStealing α ι) (i : ι) (t : ℕ) (item : Option α) : WorkStealing α ι :=
  { s.setThief i .idle with
    tail := u32 (t + 1), taken := s.taken ++ s.untaken.head?.toList, log := s.log ++ [.stolen item s.untaken] }

def stepThief (cap : Capacity) (s : WorkStealing α ι) (i : ι) : Option (WorkStealing α ι) :=
  match s.thieves i with
  | .idle => none
  | .loaded t => if s.head ≤ t then some (s.setThief i .idle) else some (s.setThief i (.reading t))
  | .reading t => some (s.setThief i (.claiming t (s.slots (cap.slot t))))
  | .claiming t item => if s.tail = t then some (s.stolen i t item) else some (s.setThief i .idle)

def step (cap : Capacity) (s : WorkStealing α ι) : Act α ι → Option (WorkStealing α ι)
  | .push a => match s.owner with
    | .idle => some { s with owner := .pushing a s.head }
    | _ => none
  | .pop => match s.owner with
    | .idle => some { s with owner := .popping s.head }
    | _ => none
  | .owner => s.stepOwner cap
  | .steal i => match s.thieves i with
    | .idle => some (s.setThief i (.loaded s.tail))
    | _ => none
  | .thief i => s.stepThief cap i
  | .spurious i => match s.thieves i with
    | .claiming _ _ => some (s.setThief i .idle)
    | _ => none

omit [DecidableEq ι] in
/-- `empty()`. -/
def empty (s : WorkStealing α ι) : Bool := decide (s.head ≤ s.tail)

/-! ### The property -/

omit [DecidableEq ι] in
def Quiet (s : WorkStealing α ι) : Prop := s.owner = .idle ∧ ∀ i, s.thieves i = .idle

omit [DecidableEq ι] in
/-- The items in the slots from the tail to the head. -/
def contents (cap : Capacity) (s : WorkStealing α ι) : List α :=
  (List.range (s.head - s.tail)).filterMap fun j => s.slots (cap.slot (s.tail + j))

def steps (cap : Capacity) : WorkStealing α ι → List (Act α ι) → Option (WorkStealing α ι)
  | s, [] => some s
  | s, a :: l => (s.step cap a).bind fun t => steps cap t l

/-- What holds while no operation is in progress. -/
structure Exact (cap : Capacity) (s : WorkStealing α ι) : Prop where
  items : s.contents cap = s.untaken.filterMap (s.pushed[·]?)
  all : (s.log.filterMap Event.got ++ s.contents cap).Perm s.pushed
  empty : s.empty = true ↔ s.untaken = []
  pop : s.untaken ≠ [] → ∃ n t a, s.steps cap (.pop :: List.replicate n .owner) = some t ∧ t.owner = .idle ∧
    t.log = s.log ++ [.popped (some a) s.untaken]

/-- No push is taken twice, what is returned is what was pushed, and what is held is what is left. -/
structure Lossless (cap : Capacity) (s : WorkStealing α ι) : Prop where
  once : (s.log.filterMap Event.ticket).Nodup
  events : ∀ e ∈ s.log, Event.Valid cap s.pushed e
  quiet : s.Quiet → s.Exact cap

omit [DecidableEq ι] in
/-- No `push` finds the head at the last uint32 number. -/
def Clean (s : WorkStealing α ι) (a : Act α ι) : Prop :=
  match a, s.owner with
  | .owner, .storing _ h => h + 1 < 2 ^ 32
  | _, _ => True

end WorkStealing

end Libx.Xpp
