import Libx.Fer.Bitmap

/-!
# Libx.Fer.Count — how many bits are set
-/

namespace Libx.Fer

open Libx.Agent (Bytes)
open List

/-- A bit of a buffer; there is none beyond its end. -/
def bitAt (data : Bytes) (i : ℕ) : Bool := (data.getD (i / 8) 0).toNat.testBit (i % 8)

theorem count_congr {p q : ℕ → Bool} {n : ℕ} (h : ∀ k < n, p k = q k) :
    Nat.count (fun k => p k) n = Nat.count (fun k => q k) n := by
  rw [Nat.count_eq_card_filter_range, Nat.count_eq_card_filter_range]
  congr 1
  exact Finset.filter_congr (fun k hk => by rw [h k (Finset.mem_range.mp hk)])

theorem popcount8_ofNat : ∀ b < 256, popcount8 (UInt8.ofNat b) = Nat.count (fun k => (UInt8.ofNat b).toNat.testBit k) 8 := by
  decide +kernel

theorem popcount8_eq (b : UInt8) : popcount8 b = Nat.count (fun k => b.toNat.testBit k) 8 := by
  have h := popcount8_ofNat b.toNat b.toNat_lt
  rwa [UInt8.ofNat_toNat] at h

/-- `popcount8` counts the bits from `r` on, after the mask of the bits below it, and those are the others. -/
theorem popcount8_mask {r : ℕ} (hr : r < 8) (b : UInt8) : popcount8 (b &&& ~~~(UInt8.ofNat (1 <<< r) - 1)) +
    Nat.count (fun k => b.toNat.testBit k) r = popcount8 b := by
  have hmask : ∀ r < 8, ∀ k < 8, (~~~(UInt8.ofNat (1 <<< r) - 1)).toNat.testBit k = decide (r ≤ k) := by decide
  have hbit (k : ℕ) (hk : k < 8) :
      (b &&& ~~~(UInt8.ofNat (1 <<< r) - 1)).toNat.testBit k = (b.toNat.testBit k && decide (r ≤ k)) := by
    rw [UInt8.toNat_and, Nat.testBit_and, hmask r hr k hk]
  have hlow : Nat.count (fun k => (b.toNat.testBit k && decide (r ≤ k)) = true) r = 0 :=
    Nat.count_iff_forall_not.2 fun k hk => by simp [hk]
  have hhigh : Nat.count (fun k => (b.toNat.testBit (r + k) && decide (r ≤ r + k)) = true) (8 - r) =
      Nat.count (fun k => b.toNat.testBit (r + k) = true) (8 - r) := by
    simp
  rw [popcount8_eq, popcount8_eq, count_congr hbit, show 8 = r + (8 - r) by omega, Nat.count_add, Nat.count_add, hlow]
  omega

theorem sum_popcount8 (data : Bytes) : (data.map popcount8).sum = Nat.count (fun i => bitAt data i) (8 * data.length) := by
  induction data with
  | nil => rfl
  | cons b data ih =>
    have hfirst : Nat.count (fun i => bitAt (b :: data) i) 8 = Nat.count (fun k => b.toNat.testBit k) 8 := by
      refine count_congr (fun k hk => ?_)
      unfold bitAt
      rw [Nat.div_eq_of_lt hk, Nat.mod_eq_of_lt hk]
      rfl
    have hrest (k : ℕ) : bitAt (b :: data) (8 + k) = bitAt data k := by
      unfold bitAt
      rw [Nat.add_div_left k (by decide), Nat.add_mod_left]
      rfl
    rw [map_cons, sum_cons, ih, length_cons, Nat.mul_succ, Nat.add_comm (8 * data.length),
      Nat.count_add, hfirst, popcount8_eq]
    simp only [hrest]

namespace Bitmap

variable {bm bm' : Bitmap} {i : ℕ}

def setBits (bm : Bitmap) : ℕ := ((Finset.range bm.nbits).filter (fun i => bm.Has i)).card

theorem has_iff_bitAt : bm.Has i ↔ i < bm.nbits ∧ bitAt bm.data i = true := by
  rw [has_iff]
  refine and_congr_right (fun _ => ?_)
  unfold bitAt
  rw [getD_eq_getElem?_getD]
  cases bm.data[i / 8]? with
  | none | some b => simp

theorem setBits_eq_count (bm : Bitmap) : bm.setBits = Nat.count (fun i => bitAt bm.data i) bm.nbits := by
  unfold setBits
  rw [Nat.count_eq_card_filter_range]
  congr 1
  exact Finset.filter_congr (fun k hk => by rw [has_iff_bitAt, and_iff_right (Finset.mem_range.mp hk)])

/-- **`xBitmapCount` counts the bits that are set**, those of the last byte beyond the size left out. -/
theorem count_eq (h : bm.data.length = (bm.nbits + 7) / 8) : bm.count = some bm.setBits := by
  rw [setBits_eq_count]
  unfold count
  by_cases hzero : bm.nbits = 0
  · rw [if_pos hzero, hzero]
    rfl
  rw [if_neg hzero]
  by_cases hmod : bm.nbits % 8 = 0
  · rw [if_pos hmod, sum_popcount8]
    have hlen : 8 * bm.data.length = bm.nbits := by omega
    rw [hlen]
  rw [if_neg hmod]
  -- the last byte, and the full ones before it
  obtain ⟨init, b, hdata⟩ : ∃ init b, bm.data = init ++ [b] := by
    have hne : bm.data ≠ [] := by
      intro hnil
      rw [hnil, length_nil] at h
      omega
    exact ⟨_, _, (dropLast_append_getLast hne).symm⟩
  rw [hdata] at h ⊢
  rw [length_append, length_singleton] at h
  have hsplit : bm.nbits = 8 * init.length + bm.nbits % 8 := by omega
  have hinit : Nat.count (fun i => bitAt (init ++ [b]) i) (8 * init.length) = (init.map popcount8).sum := by
    rw [sum_popcount8]
    refine count_congr (fun k hk => ?_)
    unfold bitAt
    rw [getD_append _ _ _ _ (by omega)]
  have hlast : Nat.count (fun k => bitAt (init ++ [b]) (8 * init.length + k)) (bm.nbits % 8) =
      Nat.count (fun k => b.toNat.testBit k) (bm.nbits % 8) := by
    refine count_congr (fun k hk => ?_)
    have hk8 : k < 8 := hk.trans (Nat.mod_lt _ (by decide))
    unfold bitAt
    rw [getD_append_right _ _ _ _ (by omega), Nat.mul_add_div (by decide), Nat.div_eq_of_lt hk8,
      Nat.mul_add_mod, Nat.mod_eq_of_lt hk8, Nat.add_zero, Nat.sub_self]
    rfl
  have hmask := popcount8_mask (Nat.mod_lt bm.nbits (by decide)) b
  have hcount : Nat.count (fun i => bitAt (init ++ [b]) i) bm.nbits =
      (init.map popcount8).sum + Nat.count (fun k => b.toNat.testBit k) (bm.nbits % 8) := by
    conv_lhs => rw [hsplit]
    rw [Nat.count_add, hinit, hlast]
  rw [List.getLast?_concat, Option.map_some, hcount, map_append, sum_append]
  simp only [map_cons, map_nil, sum_cons, sum_nil, Nat.add_zero, Option.some.injEq]
  unfold bitMask
  omega

theorem setBits_le (bm : Bitmap) : bm.setBits ≤ bm.nbits := by
  exact (Finset.card_filter_le _ _).trans (Finset.card_range _).le

theorem setBits_eq_zero (h : ∀ i, ¬ bm.Has i) : bm.setBits = 0 := by
  unfold setBits
  rw [Finset.filter_false_of_mem (fun i _ => h i), Finset.card_empty]

theorem not_has_of_setBits (h : bm.setBits = 0) : ¬ bm.Has i := by
  intro hi
  unfold setBits at h
  rw [Finset.card_eq_zero] at h
  exact absurd (Finset.mem_filter.mpr ⟨Finset.mem_range.mpr hi.lt, hi⟩) (h ▸ Finset.notMem_empty i)

theorem filter_set (h : bm.set i = some bm') (hi : i < bm.nbits) :
    (Finset.range bm'.nbits).filter (fun j => bm'.Has j) = insert i ((Finset.range bm.nbits).filter (fun j => bm.Has j)) := by
  ext j
  rw [Finset.mem_insert, Finset.mem_filter, Finset.mem_filter, nbits_set h, has_set h, Finset.mem_range]
  constructor
  · rintro ⟨hj, hor | ⟨rfl, -⟩⟩
    · exact .inr ⟨hj, hor⟩
    · exact .inl rfl
  · rintro (rfl | ⟨hj, hor⟩)
    · exact ⟨hi, .inr ⟨rfl, hi⟩⟩
    · exact ⟨hj, .inl hor⟩

theorem not_mem_filter (hnot : ¬ bm.Has i) : i ∉ (Finset.range bm.nbits).filter (fun j => bm.Has j) :=
  fun hmem => hnot (Finset.mem_filter.mp hmem).2

theorem setBits_set (h : bm.set i = some bm') (hi : i < bm.nbits) (hnot : ¬ bm.Has i) :
    bm'.setBits = bm.setBits + 1 := by
  unfold setBits
  rw [filter_set h hi, Finset.card_insert_of_notMem (not_mem_filter hnot)]

def filled (g : ℕ → ℕ) (bm : Bitmap) : ℕ := ∑ i ∈ (Finset.range bm.nbits).filter (fun i => bm.Has i), g i

variable {g : ℕ → ℕ}

theorem filled_set (h : bm.set i = some bm') (hi : i < bm.nbits) (hnot : ¬ bm.Has i) :
    bm'.filled g = bm.filled g + g i := by
  unfold filled
  rw [filter_set h hi, Finset.sum_insert (not_mem_filter hnot), Nat.add_comm]

theorem filled_le (g : ℕ → ℕ) (bm : Bitmap) : bm.filled g ≤ ∑ i ∈ Finset.range bm.nbits, g i :=
  Finset.sum_le_sum_of_subset (Finset.filter_subset _ _)

theorem filled_const {c : ℕ} (h : ∀ i, bm.Has i → g i = c) : bm.filled g = bm.setBits * c := by
  exact Finset.sum_const_nat (fun i hi => h i (Finset.mem_filter.mp hi).2)

theorem filled_all (h : ∀ i < bm.nbits, bm.Has i) : bm.filled g = ∑ i ∈ Finset.range bm.nbits, g i := by
  unfold filled
  rw [Finset.filter_true_of_mem (fun i hi => h i (Finset.mem_range.mp hi))]

end Bitmap

def slot (chunkSize size i : ℕ) : ℕ := min chunkSize (size - i * chunkSize)

theorem sum_slot (chunkSize size n : ℕ) : ∑ i ∈ Finset.range n, slot chunkSize size i = min (n * chunkSize) size := by
  induction n with
  | zero => rw [Finset.range_zero, Finset.sum_empty, Nat.zero_mul, Nat.zero_min]
  | succ n ih =>
    rw [Finset.sum_range_succ, ih, Nat.succ_mul]
    unfold slot
    omega

end Libx.Fer
