import Mathlib

/-!
# Libx.Base.Mpsc — the queue of many producers and one consumer

mpsc.c, one atomic step at a time.  Producers and nodes are of any types; a node is pushed again only after it was
popped.
-/

namespace Libx.Base

/-- Where a producer is in `xMpscPush`. -/
inductive PushState (N : Type*)
  | idle
  | called (node : N)
  | cleared (node : N)
  | swapped (node : N) (old : Option N)
  deriving DecidableEq

/-- Where the consumer is in `xMpscPop`: it has the head; it has seen no next node; the CAS of the tail has failed; it
has the next node; the CAS of the tail has succeeded. -/
inductive PopState (N : Type*)
  | idle
  | loaded (head : N)
  | single (head : N)
  | spinning (head : N)
  | advancing (head next : N)
  | emptied (head : N)
  deriving DecidableEq

/-- The queue and its callers; then the nodes that are pushed and not popped, the pushes in the order of their calls and
in that of their exchanges, and the nodes that were popped. -/
structure Mpsc (P N : Type*) where
  next : N → Option N
  head : Option N := none
  tail : Option N := none
  producers : P → PushState N := fun _ => .idle
  consumer : PopState N := .idle
  inUse : N → Bool := fun _ => false
  calls : List (P × N) := []
  order : List (P × N) := []
  popped : List N := []

namespace Mpsc

/-- A call of `xMpscPush`, the next step of a producer, the next step of the consumer. -/
inductive Act (P N : Type*)
  | push (p : P) (node : N)
  | producer (p : P)
  | consumer

variable {P N : Type*} [DecidableEq P] [DecidableEq N]

def setProducer (s : Mpsc P N) (p : P) (x : PushState N) : Mpsc P N :=
  { s with producers := Function.update s.producers p x }

/-- `xMpscPop` returns a node. -/
def ret (s : Mpsc P N) (head : Option N) (node : N) : Mpsc P N :=
  { s with
    head, consumer := .idle, popped := s.popped ++ [node], inUse := Function.update s.inUse node false }

/-- The next step of `xMpscPush`. -/
def stepProducer (s : Mpsc P N) (p : P) : Option (Mpsc P N) :=
  match s.producers p with
  | .idle => none
  | .called node => some { s.setProducer p (.cleared node) with next := Function.update s.next node none }
  | .cleared node =>
    some { s.setProducer p (.swapped node s.tail) with tail := some node, order := s.order ++ [(p, node)] }
  | .swapped node (some old) =>
    some { s.setProducer p .idle with next := Function.update s.next old (some node) }
  | .swapped node none => some { s.setProducer p .idle with head := some node }

/-- The next step of `xMpscPop`. -/
def stepConsumer (s : Mpsc P N) : Mpsc P N :=
  match s.consumer with
  | .idle =>
    match s.head with
    | none => s
    | some h => { s with consumer := .loaded h }
  | .loaded h =>
    match s.next h with
    | none => { s with consumer := .single h }
    | some n => { s with consumer := .advancing h n }
  | .single h =>
    if s.tail = some h then { s with tail := none, consumer := .emptied h } else { s with consumer := .spinning h }
  | .spinning h =>
    match s.next h with
    | none => s
    | some n => { s with consumer := .advancing h n }
  | .advancing h n => s.ret (some n) h
  | .emptied h => s.ret (if s.head = some h then none else s.head) h

/-- One atomic step; a node that is in use is not pushed. -/
def step (s : Mpsc P N) : Act P N → Option (Mpsc P N)
  | .push p node =>
    if s.producers p = .idle ∧ s.inUse node = false then
      some { s.setProducer p (.called node) with
        inUse := Function.update s.inUse node true, calls := s.calls ++ [(p, node)] }
    else none
  | .producer p => s.stepProducer p
  | .consumer => some s.stepConsumer

/-! ### The property -/

omit [DecidableEq P] [DecidableEq N] in
/-- The list is what `next` gives from a pointer on. -/
def Linked (next : N → Option N) : Option N → List N → Prop
  | p, [] => p = none
  | p, n :: l => p = some n ∧ Linked next (next n) l

/-- The nodes that are pushed, in the order of the exchanges. -/
def pushed (s : Mpsc P N) : List N := s.order.map Prod.snd

def Quiet (s : Mpsc P N) : Prop := (∀ p, s.producers p = .idle) ∧ s.consumer = .idle

/-- What was popped is the first of what was pushed, where each producer's pushes stand in the order of its calls; and
while all are quiet, the rest is linked from the head, and the tail is its last. -/
structure Lossless (s : Mpsc P N) : Prop where
  popped : s.popped <+: s.pushed
  calls : ∀ p, s.order.filter (·.1 = p) <+: s.calls.filter (·.1 = p)
  all : s.Quiet → ∀ p, s.order.filter (·.1 = p) = s.calls.filter (·.1 = p)
  linked : s.Quiet → Linked s.next s.head (s.pushed.drop s.popped.length) ∧
    s.tail = (s.pushed.drop s.popped.length).getLast?

end Mpsc

end Libx.Base
