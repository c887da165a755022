import Mathlib

/-!
# Libx.Core.Watermark — a counted suffix is what lies above a mark

A list is numbered by a key, and a count says how many of its last entries have a number from the
mark `m` on.
-/

namespace Libx.Core

open List

universe u

variable {α : Type u} {key : α → ℕ} {m d : ℕ} {h : List α}

/-- The last `d` entries of `h` are those numbered from `m` on. -/
structure Watermark (key : α → ℕ) (m : ℕ) (h : List α) (d : ℕ) : Prop where
  bound : d ≤ h.length
  below : ∀ x ∈ h.take (h.length - d), key x < m
  above : ∀ x ∈ h.drop (h.length - d), m ≤ key x

namespace Watermark

theorem raise (hlt : ∀ x ∈ h, key x < m) : Watermark key m h 0 := by
  refine ⟨Nat.zero_le _, fun x hx => hlt x (mem_of_mem_take hx), ?_⟩
  intro x hx
  exact absurd hx (by simp)

theorem append (hw : Watermark key m h d) {es : List α} (hes : ∀ x ∈ es, m ≤ key x) :
    Watermark key m (h ++ es) (d + es.length) := by
  have hb := hw.bound
  have hlen : (h ++ es).length - (d + es.length) = h.length - d := by
    rw [length_append]
    omega
  refine ⟨by rw [length_append]; omega, ?_, ?_⟩
  · rw [hlen, take_append_of_le_length (by omega)]
    exact hw.below
  · rw [hlen, drop_append_of_le_length (by omega)]
    intro x hx
    rcases mem_append.mp hx with h1 | h1
    · exact hw.above x h1
    · exact hes x h1

theorem drop_eq_filter (hw : Watermark key m h d) :
    h.drop (h.length - d) = h.filter (fun x => m ≤ key x) := by
  conv_rhs => rw [← take_append_drop (h.length - d) h, filter_append]
  have hnone : (h.take (h.length - d)).filter (fun x => m ≤ key x) = [] := by
    rw [filter_eq_nil_iff]
    intro x hx
    have := hw.below x hx
    simp only [decide_eq_true_eq]
    omega
  have hall : (h.drop (h.length - d)).filter (fun x => m ≤ key x) = h.drop (h.length - d) := by
    rw [filter_eq_self]
    intro x hx
    exact decide_eq_true (hw.above x hx)
  rw [hnone, hall, nil_append]

end Watermark

end Libx.Core
