import Mathlib

/-!
# Libx.Core.Masks — probing under a mask

A table of `n` slots is probed at the positions `(x + i) &&& (n - 1)`, where `n` need not be a power of two.
-/

namespace Libx.Core

/-- The largest power of two that divides a number. -/
def lowBit (n : ℕ) : ℕ := if 0 < n ∧ n % 2 = 0 then 2 * lowBit (n / 2) else 1
termination_by n
decreasing_by omega

variable {n : ℕ}

theorem lowBit_even (hn : 0 < n) : lowBit (2 * n) = 2 * lowBit n := by
  rw [lowBit, if_pos ⟨by omega, by omega⟩, Nat.mul_div_cancel_left n Nat.two_pos]

theorem lowBit_odd (hn : n % 2 = 1) : lowBit n = 1 := by
  rw [lowBit, if_neg (by omega)]

theorem lowBit_pos (n : ℕ) : 0 < lowBit n := by
  fun_induction lowBit n with
  | case1 n _ ih => omega
  | case2 => exact Nat.one_pos

theorem lowBit_le (hn : 0 < n) : lowBit n ≤ n := by
  fun_induction lowBit n with
  | case1 n h ih =>
    omega
  | case2 => exact hn

theorem and_double (a b c d : ℕ) (hb : b < 2) (hd : d < 2) :
    (2 * a + b) &&& (2 * c + d) = 2 * (a &&& c) + if b = 1 ∧ d = 1 then 1 else 0 := by
  have hbit : ∀ x y : ℕ, y < 2 → 2 * x + y = Nat.bit (decide (y = 1)) x := fun x y hy => by
    obtain rfl | rfl : y = 0 ∨ y = 1 := by omega
    · rfl
    · rfl
  rw [hbit a b hb, hbit c d hd, Nat.land_bit, Nat.bit_val, ← Bool.decide_and]
  congr 1
  split <;> simp_all

theorem submask_half {a b c d : ℕ} (hb : b < 2) (hd : d < 2) (h : (2 * a + b) &&& (2 * c + d) = 2 * a + b) :
    a &&& c = a ∧ (b = 1 → d = 1) := by
  rw [and_double a b c d hb hd] at h
  split at h <;> omega

theorem and_block (hn : 0 < n) {x i : ℕ} (hx : x &&& (n - 1) = x) (hi : i ≤ lowBit n) :
    (x + i) &&& (n - 1) = lowBit n * (x / lowBit n) + (x % lowBit n + i) % lowBit n := by
  induction n using Nat.strong_induction_on generalizing x i with
  | _ n ih =>
    obtain ⟨c, rfl | rfl⟩ := n.even_or_odd'
    · -- The mask is odd, and the block is that of the half, twice.
      have hc : 0 < c := by omega
      have hmask : 2 * c - 1 = 2 * (c - 1) + 1 := by omega
      obtain ⟨y, b, hb, rfl⟩ : ∃ y b, b < 2 ∧ x = 2 * y + b := ⟨x / 2, x % 2, by omega, by omega⟩
      rw [hmask] at hx ⊢
      obtain ⟨hy, -⟩ := submask_half hb (by omega) hx
      rw [lowBit_even hc] at hi ⊢
      obtain ⟨j, r, hr, hij, hj⟩ : ∃ j r, r < 2 ∧ 2 * y + b + i = 2 * (y + j) + r ∧ j ≤ lowBit c ∧ b + i = 2 * j + r :=
        ⟨(b + i) / 2, (b + i) % 2, by omega, by omega, by omega, by omega⟩
      obtain ⟨hj, hbi⟩ := hj
      rw [hij, and_double _ _ _ _ hr (by omega), ih c (by omega) hc hy hj]
      have hdiv : (2 * y + b) / (2 * lowBit c) = y / lowBit c := by
        rw [← Nat.div_div_eq_div_mul]
        congr 1
        omega
      have hmod : (2 * y + b) % (2 * lowBit c) = 2 * (y % lowBit c) + b := by
        rw [Nat.mod_mul]
        have h1 : (2 * y + b) / 2 = y := by omega
        have h2 : (2 * y + b) % 2 = b := by omega
        rw [h1, h2]
        omega
      have hmod' : (2 * (y % lowBit c) + b + i) % (2 * lowBit c) = 2 * ((y % lowBit c + j) % lowBit c) + r := by
        rw [show 2 * (y % lowBit c) + b + i = 2 * (y % lowBit c + j) + r by omega, Nat.mod_mul]
        have h1 : (2 * (y % lowBit c + j) + r) / 2 = y % lowBit c + j := by omega
        have h2 : (2 * (y % lowBit c + j) + r) % 2 = r := by omega
        rw [h1, h2]
        omega
      rw [hdiv, hmod, hmod']
      have hr' : (if r = 1 ∧ 1 = 1 then 1 else 0) = r := by
        obtain rfl | rfl : r = 0 ∨ r = 1 := by omega
        · rfl
        · rfl
      rw [hr']
      ring
    · -- The mask is even, and so is `x`.
      rw [lowBit_odd (by omega)] at hi ⊢
      have hmask : 2 * c + 1 - 1 = 2 * c + 0 := by omega
      obtain ⟨y, b, hb, rfl⟩ : ∃ y b, b < 2 ∧ x = 2 * y + b := ⟨x / 2, x % 2, by omega, by omega⟩
      rw [hmask] at hx ⊢
      obtain ⟨hy, hb'⟩ := submask_half hb (by omega) hx
      obtain rfl : b = 0 := by omega
      rw [show 2 * y + 0 + i = 2 * y + i by omega, and_double _ _ _ _ (by omega) (by omega), hy]
      simp [Nat.mod_one]

theorem and_lowBit (hn : 0 < n) {x : ℕ} (hx : x &&& (n - 1) = x) : (x + lowBit n) &&& (n - 1) = x := by
  rw [and_block hn hx le_rfl, Nat.add_mod_right, Nat.mod_mod, Nat.div_add_mod]

theorem exists_probe (hn : 0 < n) {x s : ℕ} (hx : x &&& (n - 1) = x) (hs : s &&& (n - 1) = s) :
    ∃ i < n, (x + i) &&& (n - 1) = s := by
  induction n using Nat.strong_induction_on generalizing x s with
  | _ n ih =>
    obtain ⟨y, b, hb, rfl⟩ : ∃ y b, b < 2 ∧ x = 2 * y + b := ⟨x / 2, x % 2, by omega, by omega⟩
    obtain ⟨z, d, hd, rfl⟩ : ∃ z d, d < 2 ∧ s = 2 * z + d := ⟨s / 2, s % 2, by omega, by omega⟩
    obtain ⟨c, rfl | rfl⟩ := n.even_or_odd'
    · have hc : 0 < c := by omega
      have hmask : 2 * c - 1 = 2 * (c - 1) + 1 := by omega
      rw [hmask] at hx hs ⊢
      obtain ⟨hy, -⟩ := submask_half hb (by omega) hx
      obtain ⟨hz, -⟩ := submask_half hd (by omega) hs
      -- The halves meet after `j` steps; where a bit is to go it takes one at least.
      obtain ⟨j, hj, hbj, hprobe⟩ : ∃ j, 2 * j + d < 2 * c + b ∧ b ≤ 2 * j + d ∧ (y + j) &&& (c - 1) = z := by
        obtain ⟨j, hj, hprobe⟩ := ih c (by omega) hc hy hz
        by_cases hbj : b ≤ 2 * j + d
        · exact ⟨j, by omega, hbj, hprobe⟩
        · obtain rfl : j = 0 := by omega
          rw [Nat.add_zero, hy] at hprobe
          have hle := lowBit_le hc
          have hpos := lowBit_pos c
          exact ⟨lowBit c, by omega, by omega, (and_lowBit hc hy).trans hprobe⟩
      refine ⟨2 * j + d - b, by omega, ?_⟩
      rw [show 2 * y + b + (2 * j + d - b) = 2 * (y + j) + d by omega, and_double _ _ _ _ hd (by omega), hprobe]
      split <;> omega
    · have hmask : 2 * c + 1 - 1 = 2 * c + 0 := by omega
      rw [hmask] at hx hs ⊢
      obtain ⟨hy, hb'⟩ := submask_half hb (by omega) hx
      obtain ⟨hz, hd'⟩ := submask_half hd (by omega) hs
      obtain rfl : b = 0 := by omega
      obtain rfl : d = 0 := by omega
      obtain rfl | hc := c.eq_zero_or_pos
      · rw [Nat.and_zero] at hy hz
        exact ⟨0, by omega, by rw [← hy, ← hz]; rfl⟩
      · obtain ⟨j, hj, hprobe⟩ := ih (c + 1) (by omega) (by omega) (x := y) (s := z) (by simpa using hy)
          (by simpa using hz)
        refine ⟨2 * j, by omega, ?_⟩
        rw [Nat.add_sub_cancel] at hprobe
        rw [show 2 * y + 0 + 2 * j = 2 * (y + j) + 0 by omega, and_double _ _ _ _ (by omega) (by omega), hprobe]
        rfl

def submasks (n : ℕ) : Finset ℕ := (Finset.range n).filter fun s => s &&& (n - 1) = s

theorem mem_submasks {s : ℕ} (hn : 0 < n) : s ∈ submasks n ↔ s &&& (n - 1) = s := by
  rw [submasks, Finset.mem_filter, Finset.mem_range]
  refine ⟨And.right, fun hs => ⟨?_, hs⟩⟩
  have : s &&& (n - 1) ≤ n - 1 := Nat.and_le_right
  omega

theorem card_submasks_double (hn : 0 < n) : 2 * (submasks n).card ≤ (submasks (n * 2)).card := by
  have hmem : ∀ s ∈ submasks n, ∀ b < 2, 2 * s + b ∈ submasks (n * 2) := fun s hs b hb => by
    rw [mem_submasks hn] at hs
    rw [mem_submasks (by omega), show n * 2 - 1 = 2 * (n - 1) + 1 by omega, and_double _ _ _ _ hb (by omega), hs]
    split <;> omega
  have hdisj : Disjoint ((submasks n).image fun s => 2 * s) ((submasks n).image fun s => 2 * s + 1) := by
    rw [Finset.disjoint_left]
    simp only [Finset.mem_image, not_exists, not_and]
    rintro _ ⟨s, -, rfl⟩ t -
    omega
  have hsub : ((submasks n).image fun s => 2 * s) ∪ ((submasks n).image fun s => 2 * s + 1) ⊆ submasks (n * 2) := by
    refine Finset.union_subset (Finset.image_subset_iff.2 fun s hs => hmem s hs 0 (by omega))
      (Finset.image_subset_iff.2 fun s hs => hmem s hs 1 (by omega))
  have hcard := Finset.card_le_card hsub
  rw [Finset.card_union_of_disjoint hdisj, Finset.card_image_of_injective _ fun a b h => by
      omega, Finset.card_image_of_injective _ fun a b h => by
      omega] at hcard
  omega

end Libx.Core
