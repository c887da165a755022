import Mathlib

/-!
# Libx.Core.Footprint — programs on cells that point to each other

A memory is a partial function from addresses to cells.  A program on it is partial: it is none where an address is
followed that has no cell.
-/

namespace Libx.Core

universe u

section Programs

variable {α β : Type u} {o : Option α} {P Q : α → Prop} {R : β → Prop}

/-- The program has a result, and the result is as `Q` says. -/
def Yields (o : Option α) (Q : α → Prop) : Prop := ∃ a, o = some a ∧ Q a

namespace Yields

theorem some {a : α} (h : Q a) : Yields (Option.some a) Q := ⟨a, rfl, h⟩

theorem mono (h : Yields o P) (hPQ : ∀ a, P a → Q a) : Yields o Q := by
  obtain ⟨a, ha, hP⟩ := h
  exact ⟨a, ha, hPQ a hP⟩

theorem bind {f : α → Option β} (h : Yields o P) (hf : ∀ a, P a → Yields (f a) R) : Yields (o >>= f) R := by
  obtain ⟨a, ha, hP⟩ := h
  obtain ⟨b, hb, hR⟩ := hf a hP
  refine ⟨b, ?_, hR⟩
  rw [ha, Option.bind_eq_bind, Option.bind_some, hb]

theorem read {f : α → Option β} {a : α} (h : o = Option.some a) (hf : Yields (f a) R) : Yields (o >>= f) R :=
  bind (P := fun b => b = a) ⟨a, h, rfl⟩ fun b hb => by
    rw [hb]
    exact hf

theorem map {f : α → β} (h : Yields o P) (hf : ∀ a, P a → R (f a)) : Yields (o.map f) R := by
  obtain ⟨a, ha, hP⟩ := h
  exact ⟨f a, by rw [ha, Option.map_some], hf a hP⟩

end Yields

end Programs

section Cells

variable {A C : Type*}

def cellAt (a : A) (c : C) : Multiset (A × C) := {(a, c)}

/-- **The footprint**: its cells are in memory, no two of them at one address. -/
structure Holds (m : A → Option C) (H : Multiset (A × C)) : Prop where
  nodup : (H.map Prod.fst).Nodup
  cells : ∀ e ∈ H, m e.1 = some e.2

namespace Holds

variable {m : A → Option C} {H R : Multiset (A × C)} {a b : A} {c d : C}

theorem zero : Holds m 0 := ⟨by simp, by simp⟩

theorem of_eq (h : Holds m H) (e : H = R) : Holds m R := e ▸ h

theorem read (h : Holds m (cellAt a c + R)) : m a = some c :=
  h.cells (a, c) (Multiset.mem_add.2 (.inl (Multiset.mem_singleton_self _)))

theorem fst_ne (h : Holds m (cellAt a c + R)) {e : A × C} (he : e ∈ R) : e.1 ≠ a := by
  have hnodup := h.nodup
  rw [cellAt, Multiset.singleton_add, Multiset.map_cons, Multiset.nodup_cons] at hnodup
  intro hea
  exact hnodup.1 (Multiset.mem_map.2 ⟨e, he, hea⟩)

theorem rest (h : Holds m (H + R)) : Holds m R := by
  refine ⟨?_, fun e he => h.cells e (Multiset.mem_add.2 (.inr he))⟩
  have hnodup := h.nodup
  rw [Multiset.map_add] at hnodup
  exact (Multiset.nodup_add.1 hnodup).2.1

variable [DecidableEq A]

theorem update_rest (h : Holds m (cellAt a c + R)) (v : Option C) : Holds (Function.update m a v) R :=
  ⟨h.rest.nodup, fun e he => by
    rw [Function.update_of_ne (h.fst_ne he)]
    exact h.rest.cells e he⟩

theorem write (h : Holds m (cellAt a c + R)) (d : C) : Holds (Function.update m a (some d)) (cellAt a d + R) := by
  refine ⟨?_, fun e he => ?_⟩
  · have hnodup := h.nodup
    rw [cellAt, Multiset.singleton_add, Multiset.map_cons] at hnodup ⊢
    exact hnodup
  · rw [cellAt, Multiset.singleton_add, Multiset.mem_cons] at he
    obtain rfl | he := he
    · exact Function.update_self ..
    · exact (h.update_rest (some d)).cells e he

theorem alloc (h : Holds m R) (ha : m a = none) (c : C) : Holds (Function.update m a (some c)) (cellAt a c + R) := by
  have hne : ∀ e ∈ R, e.1 ≠ a := fun e he hea => by
    have hcell := h.cells e he
    rw [hea, ha] at hcell
    cases hcell
  refine ⟨?_, fun e he => ?_⟩
  · rw [cellAt, Multiset.singleton_add, Multiset.map_cons, Multiset.nodup_cons]
    refine ⟨fun hmem => ?_, h.nodup⟩
    obtain ⟨e, he, hea⟩ := Multiset.mem_map.1 hmem
    exact hne e he hea
  · rw [cellAt, Multiset.singleton_add, Multiset.mem_cons] at he
    obtain rfl | he := he
    · exact Function.update_self ..
    · rw [Function.update_of_ne (hne e he)]
      exact h.cells e he

theorem free (h : Holds m (cellAt a c + R)) : Holds (Function.update m a none) R := h.update_rest none

end Holds

end Cells

end Libx.Core
