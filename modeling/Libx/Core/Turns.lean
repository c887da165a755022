import Mathlib

/-!
# Libx.Core.Turns — a list cut before its `k`-th marked item
-/

namespace Libx.Core

universe u

variable {α : Type u}

/-- Everything before the `k`-th item with `p`: the whole list when there is none. -/
def beforeNth (p : α → Bool) : ℕ → List α → List α
  | _, [] => []
  | 0, x :: xs => if p x then [] else x :: beforeNth p 0 xs
  | k + 1, x :: xs => x :: beforeNth p (if p x then k else k + 1) xs

/-- The list from the `k`-th item with `p` on. -/
def fromNth (p : α → Bool) (k : ℕ) (xs : List α) : List α := xs.drop (beforeNth p k xs).length

theorem beforeNth_initial (p : α → Bool) (k : ℕ) (xs : List α) : beforeNth p k xs <+: xs := by
  induction xs generalizing k with
  | nil => cases k <;> exact List.prefix_refl _
  | cons x xs ih =>
    cases k with
    | zero =>
      unfold beforeNth
      split_ifs
      · exact List.nil_prefix
      · exact (List.cons_prefix_cons).mpr ⟨rfl, ih 0⟩
    | succ k => exact (List.cons_prefix_cons).mpr ⟨rfl, ih _⟩

theorem take_beforeNth (p : α → Bool) (k : ℕ) (xs : List α) :
    xs.take (beforeNth p k xs).length = beforeNth p k xs :=
  (List.prefix_iff_eq_take.mp (beforeNth_initial p k xs)).symm

theorem beforeNth_zero_eq_nil {p : α → Bool} {xs : List α} :
    beforeNth p 0 xs = [] ↔ ∀ x, xs.head? = some x → p x = true := by
  cases xs with
  | nil => simp [beforeNth]
  | cons x xs =>
    unfold beforeNth
    split_ifs with hp
    · simp [hp]
    · simp [hp]

end Libx.Core
