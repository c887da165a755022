import Libx.Core.Masks
import Libx.Map.Hash

/-!
# Libx.Map.Flat — open addressing

map_flat.c.  `cap` is what the caller asks for, and need not be a power of two.
-/

namespace Libx.Map

open Libx.Core (lowBit)

variable {K V : Type}

/-- `xMapFlatSlot`; an empty slot and a tombstone have no key and value that is read. -/
inductive Slot (K V : Type)
  | empty
  | occupied (key : K) (val : V)
  | tombstone
  deriving DecidableEq

namespace Slot

def isEmpty : Slot K V → Bool
  | .empty => true
  | _ => false

def isOccupied : Slot K V → Bool
  | .occupied .. => true
  | _ => false

def entry : Slot K V → List (K × V)
  | .occupied key val => [(key, val)]
  | _ => []

end Slot

/-- `xMapFlat`. -/
structure FlatMap (K V : Type) where
  slots : ℕ → Slot K V := fun _ => .empty
  size : ℕ := 0
  cap : ℕ

/-- How the probe of a key in `flat_set` ends: at an entry of the key; with a slot for it; at the end of the loop. -/
inductive Probe (K : Type)
  | found (cur : ℕ) (key : K)
  | free (ins : ℕ)
  | full
  deriving DecidableEq

namespace FlatMap

variable (keys : Keys K)

/-- `xMapFlatCreate`; where the number of bytes wraps around there are fewer slots than `cap`. -/
def create (cap : ℕ) : Option (FlatMap K V) := if Fits 48 24 cap then some { cap } else none

/-- `(idx + i) & (cap - 1)`, from the index of a key. -/
def probeAt (cap : ℕ) (key : K) (i : ℕ) : ℕ := (keys.index cap key + i) &&& (cap - 1)

/-- The loop of `flat_resize` for a slot that is not occupied. -/
def freeSlot (cap : ℕ) (slots : ℕ → Slot K V) : ℕ → ℕ → Option ℕ
  | 0, _ => none
  | n + 1, idx => if (slots idx).isOccupied then freeSlot cap slots n ((idx + 1) &&& (cap - 1)) else some idx

/-- `flat_resize`, one entry. -/
def rehash (cap : ℕ) (slots : ℕ → Slot K V) (e : K × V) : Option (ℕ → Slot K V) :=
  (freeSlot cap slots cap (keys.index cap e.1)).map fun idx => Function.update slots idx (.occupied e.1 e.2)

/-- `flat_resize`; none where it does not end. -/
def resize (f : FlatMap K V) : Option (FlatMap K V) :=
  ((List.range f.cap).foldlM (fun slots i => (f.slots i).entry.foldlM (rehash keys (f.cap * 2)) slots)
    fun _ => .empty).map fun slots => { f with slots, cap := f.cap * 2 }

/-- The loop of `flat_set`. -/
def probe (f : FlatMap K V) (key : K) : ℕ → ℕ → Option ℕ → Probe K
  | 0, _, _ => .full
  | n + 1, i, tombstone =>
    match f.slots (probeAt keys f.cap key i) with
    | .empty => .free (tombstone.getD (probeAt keys f.cap key i))
    | .tombstone => probe f key n (i + 1) (tombstone.or (some (probeAt keys f.cap key i)))
    | .occupied k _ => if keys.eq k key then .found (probeAt keys f.cap key i) k else probe f key n (i + 1) tombstone

/-- `flat_set`, in the table that it probes. -/
def put (f : FlatMap K V) (key : K) (val : V) : SetError × FlatMap K V :=
  match f.probe keys key f.cap 0 none with
  | .found cur k => (.ok, { f with slots := Function.update f.slots cur (.occupied k val) })
  | .free ins => (.ok, { f with slots := Function.update f.slots ins (.occupied key val), size := f.size + 1 })
  | .full => (.noMemory, f)

def loaded (f : FlatMap K V) : Bool := decide (f.cap * 7 < (f.size + 1) * 10)

/-- `flat_set`. -/
def set (f : FlatMap K V) (key : K) (val : V) : Option (SetError × FlatMap K V) :=
  (if f.loaded then f.resize keys else some f).map fun f => f.put keys key val

/-- The loop of `flat_get` and `flat_del`. -/
def find (f : FlatMap K V) (key : K) : ℕ → ℕ → Option (ℕ × V)
  | 0, _ => none
  | n + 1, i =>
    match f.slots (probeAt keys f.cap key i) with
    | .empty => none
    | .tombstone => find f key n (i + 1)
    | .occupied k val => if keys.eq k key then some (probeAt keys f.cap key i, val) else find f key n (i + 1)

/-- `flat_get`. -/
def get [Zero V] (f : FlatMap K V) (key : K) : V := ((f.find keys key f.cap 0).map Prod.snd).getD 0

/-- `flat_del`. -/
def del [Zero V] (f : FlatMap K V) (key : K) : V × FlatMap K V :=
  match f.find keys key f.cap 0 with
  | some (cur, val) => (val, { f with slots := Function.update f.slots cur .tombstone, size := f.size - 1 })
  | none => (0, f)

/-- `flat_len`. -/
def len (f : FlatMap K V) : ℕ := f.size

/-- `flat_iterate`, from one slot on. -/
def iterateFrom (f : FlatMap K V) (fn : List (K × V) → Bool) (done : List (K × V)) : List ℕ → List (K × V)
  | [] => done
  | i :: is => match visit fn done (f.slots i).entry with
    | (done, true) => iterateFrom f fn done is
    | (done, false) => done

/-- `flat_iterate`. -/
def iterate (f : FlatMap K V) (fn : List (K × V) → Bool) : List (K × V) := f.iterateFrom fn [] (List.range f.cap)

def entries (f : FlatMap K V) : List (K × V) := (List.range f.cap).flatMap fun i => (f.slots i).entry

/-- The slots of a table of `cap` that are tried for a key when it is rehashed: a block of the largest power of two that
divides `cap`. -/
def block (cap : ℕ) (key : K) : ℕ := keys.index cap key / lowBit cap

/-- **Roomy**: where the table has to grow, no block of the new one gets more entries than it has slots; where it has not,
the key is in it, or one of the slots that are probed is empty. -/
def Roomy (f : FlatMap K V) (key : K) : Prop :=
  if f.loaded then ∀ e ∈ f.entries,
    f.entries.countP (fun e' => block keys (f.cap * 2) e'.1 = block keys (f.cap * 2) e.1) ≤ lowBit (f.cap * 2)
  else (∃ e ∈ f.entries, keys.eq e.1 key = true) ∨ ∃ i < f.cap, (f.slots (probeAt keys f.cap key i)).isEmpty = true

instance (f : FlatMap K V) (key : K) : Decidable (f.Roomy keys key) :=
  inferInstanceAs (Decidable (if f.loaded then ∀ e ∈ f.entries, _ else _ ∨ ∃ i < f.cap, _))

end FlatMap

end Libx.Map
