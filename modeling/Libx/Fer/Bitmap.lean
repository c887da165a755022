import Libx.Ice.Writer

/-!
# Libx.Fer.Bitmap — bitmaps, in memory and in a file

bitmap.c, and `xfer_bitmap_save` and `xfer_bitmap_load` of xfer.c.
-/

namespace Libx.Fer

open Libx.Agent (Bytes)
open Libx.Ice (readBE writeU32)
open Option

/-- `xBitmap`; the buffer has `nbytes` bytes. -/
structure Bitmap where
  nbits : ℕ := 0
  data : Bytes := []
  deriving DecidableEq

/-- `bits_to_bytes`, in 32 bits. -/
def bitsToBytes (nbits : ℕ) : ℕ := (nbits + 7) % 4294967296 / 8

/-- `(uint8_t)(1u << (i % 8))`. -/
def bitMask (i : ℕ) : UInt8 := UInt8.ofNat (1 <<< (i % 8))

/-- The loop of `popcount8`, for a byte with at most as many bits as there is fuel. -/
def popcountLoop : ℕ → UInt8 → ℕ
  | 0, _ => 0
  | k + 1, b => if b = 0 then 0 else popcountLoop k (b &&& (b - 1)) + 1

/-- `popcount8`. -/
def popcount8 (b : UInt8) : ℕ := popcountLoop 8 b

namespace Bitmap

/-- `xBitmapInit`. -/
def init (nbits : ℕ) : Option Bitmap :=
  if nbits = 0 then none else some ⟨nbits, List.replicate (bitsToBytes nbits) 0⟩

/-- `xBitmapTest`. -/
def test (i : ℕ) (bm : Bitmap) : Option Bool :=
  if bm.nbits ≤ i then some false else (bm.data[i / 8]?).map (fun b => b &&& bitMask i ≠ 0)

/-- `xBitmapSet`. -/
def set (i : ℕ) (bm : Bitmap) : Option Bitmap :=
  if bm.nbits ≤ i then some bm
  else (bm.data[i / 8]?).map (fun b => { bm with data := bm.data.set (i / 8) (b ||| bitMask i) })

/-- `xBitmapCount`. -/
def count (bm : Bitmap) : Option ℕ :=
  if bm.nbits = 0 then some 0
  else
    let total := (bm.data.map popcount8).sum
    if bm.nbits % 8 = 0 then some total
    else bm.data.getLast?.map (fun b => total - popcount8 (b &&& ~~~(bitMask bm.nbits - 1)))

def Has (i : ℕ) (bm : Bitmap) : Prop := bm.test i = some true

instance (i : ℕ) (bm : Bitmap) : Decidable (bm.Has i) := inferInstanceAs (Decidable (_ = _))

def Fits (bm : Bitmap) : Prop := bm.nbits ≤ 8 * bm.data.length

variable {bm bm' : Bitmap} {i j : ℕ}

theorem and_bitMask_ne (b : UInt8) (i : ℕ) : b &&& bitMask i ≠ 0 ↔ b.toNat.testBit (i % 8) = true := by
  have hlt : 2 ^ (i % 8) < 256 := by
    calc 2 ^ (i % 8) < 2 ^ 8 := Nat.pow_lt_pow_right (by decide) (Nat.mod_lt _ (by decide))
      _ = 256 := rfl
  rw [Ne, ← UInt8.toNat_inj, UInt8.toNat_and, bitMask, UInt8.toNat_ofNat', Nat.one_shiftLeft, Nat.mod_eq_of_lt hlt,
    Nat.and_two_pow]
  cases b.toNat.testBit (i % 8) <;> simp

theorem toNat_or_bitMask (b : UInt8) (i : ℕ) : (b ||| bitMask i).toNat = b.toNat ||| 2 ^ (i % 8) := by
  have hlt : 2 ^ (i % 8) < 256 := by
    calc 2 ^ (i % 8) < 2 ^ 8 := Nat.pow_lt_pow_right (by decide) (Nat.mod_lt _ (by decide))
      _ = 256 := rfl
  rw [UInt8.toNat_or, bitMask, UInt8.toNat_ofNat', Nat.one_shiftLeft, Nat.mod_eq_of_lt hlt]

theorem has_iff : bm.Has i ↔ i < bm.nbits ∧ ∃ b, bm.data[i / 8]? = some b ∧ b.toNat.testBit (i % 8) = true := by
  unfold Has test
  by_cases hi : bm.nbits ≤ i
  · rw [if_pos hi]
    exact ⟨fun h => absurd (some.inj h) (by decide), fun h => absurd h.1 (by omega)⟩
  · rw [if_neg hi, map_eq_some_iff]
    constructor
    · rintro ⟨b, hb, ht⟩
      exact ⟨by omega, b, hb, (and_bitMask_ne b i).mp (of_decide_eq_true ht)⟩
    · rintro ⟨-, b, hb, ht⟩
      exact ⟨b, hb, decide_eq_true ((and_bitMask_ne b i).mpr ht)⟩

theorem Has.lt (h : bm.Has i) : i < bm.nbits := (has_iff.mp h).1

theorem not_has_init {n : ℕ} (h : init n = some bm) : ¬ bm.Has i := by
  unfold init at h
  split_ifs at h
  obtain rfl := some.inj h
  rw [has_iff]
  rintro ⟨-, b, hb, ht⟩
  obtain rfl := List.eq_of_mem_replicate (List.mem_of_getElem? hb)
  simp at ht

theorem test_of_fits (h : bm.Fits) : ∃ b, bm.test i = some b := by
  unfold test
  split_ifs with hi
  · exact ⟨_, rfl⟩
  · have hlt : i / 8 < bm.data.length := by
      unfold Fits at h
      omega
    rw [List.getElem?_eq_getElem hlt]
    exact ⟨_, rfl⟩

theorem set_of_fits (h : bm.Fits) : ∃ bm', bm.set i = some bm' := by
  unfold set
  split_ifs with hi
  · exact ⟨_, rfl⟩
  · have hlt : i / 8 < bm.data.length := by
      unfold Fits at h
      omega
    rw [List.getElem?_eq_getElem hlt]
    exact ⟨_, rfl⟩

theorem nbits_set (h : bm.set i = some bm') : bm'.nbits = bm.nbits := by
  unfold set at h
  split_ifs at h
  · obtain rfl := some.inj h
    rfl
  · obtain ⟨b, -, rfl⟩ := map_eq_some_iff.mp h
    rfl

theorem length_set (h : bm.set i = some bm') : bm'.data.length = bm.data.length := by
  unfold set at h
  split_ifs at h
  · obtain rfl := some.inj h
    rfl
  · obtain ⟨b, -, rfl⟩ := map_eq_some_iff.mp h
    exact List.length_set

theorem Fits.set (hf : bm.Fits) (h : bm.set i = some bm') : bm'.Fits := by
  unfold Fits at hf ⊢
  rw [nbits_set h, length_set h]
  exact hf

theorem has_set (h : bm.set i = some bm') : bm'.Has j ↔ bm.Has j ∨ j = i ∧ i < bm.nbits := by
  unfold set at h
  by_cases hi : bm.nbits ≤ i
  · rw [if_pos hi] at h
    obtain rfl := some.inj h
    exact ⟨.inl, fun hor => hor.resolve_right (fun hj => by omega)⟩
  · rw [if_neg hi] at h
    obtain ⟨b, hb, rfl⟩ := map_eq_some_iff.mp h
    have hlt : i / 8 < bm.data.length := (List.getElem?_eq_some_iff.mp hb).1
    rw [has_iff, has_iff]
    rw [List.getElem?_set]
    by_cases hij : i / 8 = j / 8
    · rw [if_pos hij, if_pos (hij ▸ hlt), ← hij, hb]
      have hbit : (b ||| bitMask i).toNat.testBit (j % 8) = true ↔
          b.toNat.testBit (j % 8) = true ∨ i % 8 = j % 8 := by
        rw [toNat_or_bitMask, Nat.testBit_or, Nat.testBit_two_pow, Bool.or_eq_true, decide_eq_true_eq]
      simp only [some.injEq, exists_eq_left', hbit]
      have heq : i % 8 = j % 8 ↔ j = i := by omega
      rw [heq]
      constructor
      · rintro ⟨hj, hor⟩
        exact hor.imp (fun h => ⟨hj, h⟩) (fun h => ⟨h, by omega⟩)
      · rintro (⟨hj, h⟩ | ⟨rfl, h⟩)
        · exact ⟨hj, .inl h⟩
        · exact ⟨h, .inr rfl⟩
    · rw [if_neg hij]
      exact ⟨.inl, fun hor => hor.resolve_right (fun hj => hij (by rw [hj.1]))⟩

end Bitmap

/-! ### .bitmap files -/

/-- The header that `xfer_bitmap_save` writes. -/
def bitmapHeader (total : ℕ) : Bytes := writeU32 total

/-- `xfer_bitmap_load` of the content of a file: the bitmap, whose size is the number of chunks in the header. -/
def bitmapLoad (content : Bytes) : Option Bitmap :=
  if content.length < 4 then none
  else
    let total := readBE (content.take 4)
    match Bitmap.init total with
    | none => none
    | some bm =>
      let nbytes := bm.data.length
      if (content.drop 4).length < nbytes then none else some ⟨total, (content.drop 4).take nbytes⟩

/-- What a .bitmap file says, whether or not it is complete. -/
def bitmapOf (content : Bytes) : Bitmap := ⟨readBE (content.take 4), content.drop 4⟩

end Libx.Fer
