import Mathlib

/-!
# Libx.Core.Table — a table of slots

A table has at most `n` slots, each in use or free.  An entry is found by a test from the first slot on; a new one takes
the first free slot, or a further one.
-/

namespace Libx.Core

open List

universe u

/-- At most `n` slots. -/
structure Table (α : Type u) (n : ℕ) where
  slots : List (Option α)
  bounded : slots.length ≤ n

namespace Table

variable {α : Type u} {n : ℕ} {t t' : Table α n} {p : α → Bool} {i : ℕ} {x y : α}

def empty : Table α n := ⟨[], Nat.zero_le n⟩

def used (t : Table α n) : List α := t.slots.reduceOption

def get (i : ℕ) (t : Table α n) : Option α := t.slots[i]?.join

def find (p : α → Bool) (t : Table α n) : Option ℕ := t.slots.findIdx? (·.any p)

def set (i : ℕ) (o : Option α) (t : Table α n) : Table α n :=
  ⟨t.slots.set i o, by rw [List.length_set]; exact t.bounded⟩

def insert (x : α) (t : Table α n) : Option (Table α n) :=
  match t.slots.findIdx? Option.isNone with
  | some i => some (t.set i (some x))
  | none =>
    if h : t.slots.length < n then some ⟨t.slots ++ [some x], by rw [List.length_append]; exact h⟩ else none

@[simp] theorem slots_set (i : ℕ) (o : Option α) (t : Table α n) : (t.set i o).slots = t.slots.set i o := rfl

theorem mem_used : x ∈ t.used ↔ some x ∈ t.slots := reduceOption_mem_iff

theorem exists_split {q : Option α → Bool} (h : t.slots.findIdx? q = some i) :
    ∃ b o a, q o = true ∧ t.slots = b ++ o :: a ∧ b.length = i ∧ ∀ o', t.slots.set i o' = b ++ o' :: a := by
  obtain ⟨hi, hq, -⟩ := List.findIdx?_eq_some_iff_getElem.mp h
  refine ⟨t.slots.take i, t.slots[i], t.slots.drop (i + 1), hq, ?_, ?_, fun o' => ?_⟩
  · rw [getElem_cons_drop, take_append_drop]
  · exact length_take_of_le (Nat.le_of_lt hi)
  · rw [set_eq_take_append_cons_drop, if_pos hi]

theorem perm_split (b a : List (Option α)) (o : Option α) :
    (b ++ o :: a).reduceOption.Perm (o.toList ++ (b ++ a).reduceOption) := by
  rw [reduceOption_append, reduceOption_append]
  cases o with
  | none =>
    rw [reduceOption_cons_of_none]
    exact .refl _
  | some x =>
    rw [reduceOption_cons_of_some]
    exact perm_middle

theorem exists_of_find (h : t.find p = some i) :
    ∃ x rest, p x = true ∧ t.get i = some x ∧ t.used.Perm (x :: rest) ∧
      ∀ o, (t.set i o).get i = o ∧ (t.set i o).used.Perm (o.toList ++ rest) := by
  obtain ⟨b, o, a, hq, hsplit, rfl, hset⟩ := exists_split h
  obtain ⟨x, rfl, hx⟩ := (Option.any_eq_true ..).mp hq
  refine ⟨x, (b ++ a).reduceOption, hx, ?_, ?_, fun o => ⟨?_, ?_⟩⟩
  · rw [get, hsplit, List.getElem?_append_right (Nat.le_refl _), Nat.sub_self]
    rfl
  · rw [used, hsplit]
    exact perm_split b a (some x)
  · rw [get, slots_set, hset, List.getElem?_append_right (Nat.le_refl _), Nat.sub_self]
    rfl
  · rw [used, slots_set, hset]
    exact perm_split b a o

theorem find_eq_none : t.find p = none ↔ ∀ x ∈ t.used, p x = false := by
  rw [find, List.findIdx?_eq_none_iff]
  constructor
  · intro h x hx
    exact h (some x) (mem_used.mp hx)
  · intro h o ho
    cases o with
    | none => rfl
    | some x => exact h x (mem_used.mpr ho)

theorem perm_of_insert (h : t.insert x = some t') : t'.used.Perm (x :: t.used) := by
  unfold insert at h
  cases hfree : t.slots.findIdx? Option.isNone with
  | some i =>
    rw [hfree] at h
    obtain rfl := Option.some.inj h
    obtain ⟨b, o, a, hq, hsplit, -, hset⟩ := exists_split hfree
    obtain rfl := Option.isNone_iff_eq_none.mp hq
    have hused : t.used = (b ++ a).reduceOption := by
      rw [used, hsplit, reduceOption_append, reduceOption_cons_of_none, ← reduceOption_append]
    rw [used, slots_set, hset, hused]
    exact perm_split b a (some x)
  | none =>
    rw [hfree] at h
    split_ifs at h with hroom
    obtain rfl := Option.some.inj h
    rw [used, reduceOption_append]
    exact perm_append_singleton ..

theorem length_used_le (t : Table α n) : t.used.length ≤ n :=
  Nat.le_trans (reduceOption_length_le t.slots) t.bounded

theorem insert_eq_none (h : n ≤ t.used.length) (x : α) : t.insert x = none := by
  cases hins : t.insert x with
  | none => rfl
  | some t' =>
    have hlen := (perm_of_insert hins).length_eq
    have hle := t'.length_used_le
    rw [length_cons] at hlen
    omega

end Table

end Libx.Core
