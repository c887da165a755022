import Libx.Core.Assoc

/-!
# Libx.Map.Api — what is asked of a map

map.h: the operations, what they answer, and what they answer for an abstract finite map.
-/

namespace Libx.Map

open Libx.Core (Lists assign unassign)

variable {K V : Type}

/-- `xMapHashFunc` and `xMapEqFunc`; equal keys have one hash. -/
structure Keys (K : Type) where
  hash : K → ℕ
  eq : K → K → Bool
  equiv : Equivalence fun a b => eq a b = true
  compat : ∀ a b, eq a b = true → hash a = hash b

namespace Keys

variable {cap : ℕ}

/-- `hash(key) & (cap - 1)`. -/
def index (keys : Keys K) (cap : ℕ) (key : K) : ℕ := keys.hash key &&& (cap - 1)

theorem index_lt (keys : Keys K) (key : K) (hcap : 0 < cap) : keys.index cap key < cap :=
  Nat.lt_of_le_of_lt Nat.and_le_right (by omega)

theorem index_congr {keys : Keys K} {k key : K} (hk : keys.eq k key = true) : keys.index cap k = keys.index cap key := by
  rw [index, index, keys.compat _ _ hk]

end Keys

/-- `xMapType`. -/
inductive MapType
  | hash
  | flat
  | tree
  deriving DecidableEq

/-- `xErrno`, of `xMapSet`. -/
inductive SetError
  | ok
  | noMemory
  deriving DecidableEq

/-- A call; what a callback of Iterate answers depends on what it has been called with until then. -/
inductive MapOp (K V : Type)
  | set (key : K) (val : V)
  | get (key : K)
  | del (key : K)
  | len
  | iterate (fn : List (K × V) → Bool)

/-- What a call answers; for Iterate, what the callback was called with. -/
inductive MapResult (K V : Type)
  | error (e : SetError)
  | value (v : V)
  | count (n : ℕ)
  | visits (l : List (K × V))
  deriving DecidableEq

/-- The calls of a callback for the entries of a list, after those of `done`; and whether it goes on. -/
def visit (fn : List (K × V) → Bool) (done : List (K × V)) : List (K × V) → List (K × V) × Bool
  | [] => (done, true)
  | e :: es => if fn (done ++ [e]) then visit fn (done ++ [e]) es else (done ++ [e], false)

theorem visit_append (fn : List (K × V) → Bool) (done es es' : List (K × V)) :
    visit fn done (es ++ es') =
      if (visit fn done es).2 then visit fn (visit fn done es).1 es' else visit fn done es := by
  induction es generalizing done with
  | nil => rfl
  | cons e es ih =>
    rw [List.cons_append, visit, visit]
    split
    · exact ih _
    · rfl

/-- **The abstract map**: from keys, taken up to `eq`, to values.  `0` is `NULL`. -/
inductive MapSpec [Zero V] (keys : Keys K) (m : K → Option V) : MapOp K V → MapResult K V → (K → Option V) → Prop
  | set (key : K) (val : V) : MapSpec keys m (.set key val) (.error .ok) (assign keys.eq m key val)
  | get (key : K) : MapSpec keys m (.get key) (.value ((m key).getD 0)) m
  | del (key : K) : MapSpec keys m (.del key) (.value ((m key).getD 0)) (unassign keys.eq m key)
  | len {l : List (K × V)} : Lists keys.eq l m → MapSpec keys m .len (.count l.length) m
  | iterate (fn : List (K × V) → Bool) {l : List (K × V)} :
      Lists keys.eq l m → MapSpec keys m (.iterate fn) (.visits (visit fn [] l).1) m

end Libx.Map
