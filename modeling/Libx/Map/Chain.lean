import Libx.Map.Api

/-!
# Libx.Map.Chain — the loops over a linked list of entries

map_hash.c walks the chain of a bucket, and map_tree.c the overflow chain of a node.
-/

namespace Libx.Map

open List

variable {K V : Type} {eq : K → K → Bool} {key : K} {c : List (K × V)}

def getChain (eq : K → K → Bool) (key : K) : List (K × V) → Option V
  | [] => none
  | e :: es => if eq e.1 key then some e.2 else getChain eq key es

/-- The chain with the value of that entry changed. -/
def setChain (eq : K → K → Bool) (key : K) (val : V) : List (K × V) → Option (List (K × V))
  | [] => none
  | e :: es => if eq e.1 key then some ((e.1, val) :: es) else (setChain eq key val es).map (e :: ·)

/-- The value of that entry, and the chain without it. -/
def delChain (eq : K → K → Bool) (key : K) : List (K × V) → Option (V × List (K × V))
  | [] => none
  | e :: es => if eq e.1 key then some (e.2, es) else (delChain eq key es).map fun r => (r.1, e :: r.2)

theorem chain_cases (eq : K → K → Bool) (key : K) (c : List (K × V)) :
    (∀ e ∈ c, eq e.1 key = false) ∨
      ∃ a k v b, c = a ++ (k, v) :: b ∧ eq k key = true ∧ ∀ e ∈ a, eq e.1 key = false := by
  induction c with
  | nil => exact .inl nofun
  | cons e c ih =>
    cases he : eq e.1 key with
    | true => exact .inr ⟨[], e.1, e.2, c, rfl, he, nofun⟩
    | false =>
      obtain hno | ⟨a, k, v, b, rfl, hk, ha⟩ := ih
      · exact .inl (forall_mem_cons.2 ⟨he, hno⟩)
      · exact .inr ⟨e :: a, k, v, b, rfl, hk, forall_mem_cons.2 ⟨he, ha⟩⟩

section Found

variable {a b : List (K × V)} {k : K} {v : V}

theorem getChain_eq (ha : ∀ e ∈ a, eq e.1 key = false) (hk : eq k key = true) :
    getChain eq key (a ++ (k, v) :: b) = some v := by
  induction a with
  | nil => rw [nil_append, getChain, if_pos hk]
  | cons e a ih =>
    rw [cons_append, getChain, ha e mem_cons_self, if_neg nofun]
    exact ih fun e he => ha e (mem_cons_of_mem _ he)

theorem setChain_eq (ha : ∀ e ∈ a, eq e.1 key = false) (hk : eq k key = true) (val : V) :
    setChain eq key val (a ++ (k, v) :: b) = some (a ++ (k, val) :: b) := by
  induction a with
  | nil => rw [nil_append, setChain, if_pos hk, nil_append]
  | cons e a ih =>
    rw [cons_append, setChain, ha e mem_cons_self, if_neg nofun,
      ih fun e he => ha e (mem_cons_of_mem _ he)]
    rfl

theorem delChain_eq (ha : ∀ e ∈ a, eq e.1 key = false) (hk : eq k key = true) :
    delChain eq key (a ++ (k, v) :: b) = some (v, a ++ b) := by
  induction a with
  | nil => rw [nil_append, delChain, if_pos hk, nil_append]
  | cons e a ih =>
    rw [cons_append, delChain, ha e mem_cons_self, if_neg nofun,
      ih fun e he => ha e (mem_cons_of_mem _ he)]
    rfl

end Found

theorem chain_none (hc : ∀ e ∈ c, eq e.1 key = false) (val : V) :
    getChain eq key c = none ∧ setChain eq key val c = none ∧ delChain eq key c = none := by
  induction c with
  | nil => exact ⟨rfl, rfl, rfl⟩
  | cons e c ih =>
    obtain ⟨h1, h2, h3⟩ := ih fun e he => hc e (mem_cons_of_mem _ he)
    rw [getChain, setChain, delChain, hc e mem_cons_self, h1, h2, h3]
    exact ⟨rfl, rfl, rfl⟩

end Libx.Map
