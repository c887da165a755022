import Libx.Fer.Count

/-!
# Libx.Fer.BitmapSet — a bitmap is a set of indices

The rest of bitmap.c, for a buffer of any length and content.
-/

namespace Libx.Fer.Bitmap

open Libx.Agent (Bytes)
open Finset (range)

/-- `xBitmapInitStatic`. -/
def initStatic (data : Bytes) (nbits : ℕ) : Option Bitmap :=
  if nbits = 0 ∨ data.length < bitsToBytes nbits then none else some ⟨nbits, data⟩

/-- The byte of an index below `nbits` is changed. -/
def change (f : UInt8 → UInt8) (i : ℕ) (bm : Bitmap) : Option Bitmap :=
  if bm.nbits ≤ i then some bm
  else (bm.data[i / 8]?).map (fun b => { bm with data := bm.data.set (i / 8) (f b) })

/-- `xBitmapClear`. -/
def clear (i : ℕ) : Bitmap → Option Bitmap := change (fun b => b &&& ~~~(bitMask i)) i

/-- `xBitmapToggle`. -/
def toggle (i : ℕ) : Bitmap → Option Bitmap := change (fun b => b ^^^ bitMask i) i

/-- `sanitise_tail`. -/
def sanitiseTail (bm : Bitmap) : Bitmap :=
  if bm.nbits % 8 = 0 then bm
  else { bm with data := bm.data.modify (bm.data.length - 1) (fun b => b &&& (bitMask bm.nbits - 1)) }

/-- `memset` of the buffer. -/
def fill (v : UInt8) (bm : Bitmap) : Bitmap := { bm with data := List.replicate bm.data.length v }

/-- `xBitmapSetAll`. -/
def setAll (bm : Bitmap) : Bitmap := (bm.fill 0xFF).sanitiseTail

/-- `xBitmapClearAll`. -/
def clearAll (bm : Bitmap) : Bitmap := bm.fill 0

/-- `xBitmapCount`, whose counter has 32 bits. -/
def count32 (bm : Bitmap) : Option ℕ := bm.count.map (fun c => c % 4294967296)

/-- The loop over the complete bytes, which ends at one that is not `v`. -/
def allBytes (v : UInt8) : ℕ → Bytes → Option Bool
  | 0, _ => some true
  | _ + 1, [] => none
  | k + 1, b :: data => if b = v then allBytes v k data else some false

/-- The complete bytes are `v`, and so is what the mask leaves of the last byte. -/
def agrees (v : UInt8) (bm : Bitmap) : Option Bool :=
  (allBytes v (bm.nbits / 8) bm.data).bind (fun ok =>
    if ok = false then some false
    else if bm.nbits % 8 = 0 then some true
    else bm.data.getLast?.map (fun b => b &&& (bitMask bm.nbits - 1) = v &&& (bitMask bm.nbits - 1)))

/-- `xBitmapFull`. -/
def full : Bitmap → Option Bool := agrees 0xFF

/-- `xBitmapEmpty`. -/
def empty : Bitmap → Option Bool := agrees 0

/-- The calls that change a bitmap. -/
inductive BitOp
  | set (i : ℕ)
  | clear (i : ℕ)
  | toggle (i : ℕ)
  | setAll
  | clearAll

def step (bm : Bitmap) : BitOp → Option Bitmap
  | .set i => bm.set i
  | .clear i => bm.clear i
  | .toggle i => bm.toggle i
  | .setAll => some bm.setAll
  | .clearAll => some bm.clearAll

/-- A sequence of calls; `none` when one of them reaches outside the buffer. -/
def run : List BitOp → Bitmap → Option Bitmap
  | [], bm => some bm
  | op :: ops, bm => (bm.step op).bind (run ops)

/-- The calls on a set of indices below `n`. -/
def BitOp.apply (n : ℕ) (S : Finset ℕ) : BitOp → Finset ℕ
  | .set i => if i < n then insert i S else S
  | .clear i => S.erase i
  | .toggle i => if i < n then symmDiff S {i} else S
  | .setAll => range n
  | .clearAll => ∅

/-- The indices whose bit is set. -/
def indices (bm : Bitmap) : Finset ℕ := (range bm.nbits).filter (fun i => bm.Has i)

/-- What the bitmap tells is what is true of the set, and no read is outside the buffer. -/
structure Shows (bm : Bitmap) (S : Finset ℕ) : Prop where
  test : ∀ i, bm.test i = some (decide (i ∈ S))
  count : bm.count32 = some S.card
  full : bm.full = some (decide (S = range bm.nbits))
  empty : bm.empty = some (decide (S = ∅))

/-- After any calls the bitmap is the set that the same calls make. -/
def IsSet (bm : Bitmap) : Prop :=
  ∀ ops, ∃ bm', run ops bm = some bm' ∧ bm'.Shows (ops.foldl (BitOp.apply bm.nbits) bm.indices)

/-- The bitmap comes from `xBitmapInit` or `xBitmapInitStatic`. -/
def Made (bm : Bitmap) : Prop :=
  bm.nbits < 4294967296 ∧
    (init bm.nbits = some bm ∨ bm.data.length < 4294967296 ∧ initStatic bm.data bm.nbits = some bm)

/-- The buffer ends with the last byte that is needed. -/
def Tight (bm : Bitmap) : Prop := bm.data.length = (bm.nbits + 7) / 8

/-! ### Bits -/

variable {bm bm' : Bitmap} {S : Finset ℕ} {data : Bytes} {i j k n : ℕ} {b v : UInt8}

theorem bitAt_cons_lt (h : i < 8) : bitAt (b :: data) i = b.toNat.testBit i := by
  unfold bitAt
  rw [Nat.div_eq_of_lt h, Nat.mod_eq_of_lt h]
  rfl

theorem bitAt_cons_add : bitAt (b :: data) (8 + i) = bitAt data i := by
  unfold bitAt
  rw [Nat.add_div_left i (by decide), Nat.add_mod_left]
  rfl

theorem bitAt_of_getElem? (h : data[i / 8]? = some b) : bitAt data i = b.toNat.testBit (i % 8) := by
  unfold bitAt
  rw [List.getD_eq_getElem?_getD, h]
  rfl

theorem bitAt_replicate (h : i < 8 * k) : bitAt (List.replicate k v) i = v.toNat.testBit (i % 8) :=
  bitAt_of_getElem? (by rw [List.getElem?_replicate, if_pos (by omega)])

theorem bitAt_set (h : k < data.length) :
    bitAt (data.set k b) j = if j / 8 = k then b.toNat.testBit (j % 8) else bitAt data j := by
  unfold bitAt
  rw [List.getD_eq_getElem?_getD, List.getD_eq_getElem?_getD, List.getElem?_set]
  by_cases hj : k = j / 8
  · rw [if_pos hj, if_pos h, if_pos hj.symm]
    rfl
  · rw [if_neg hj, if_neg (Ne.symm hj)]

theorem byte_eq_iff : b = v ↔ ∀ j < 8, b.toNat.testBit j = v.toNat.testBit j := by
  refine ⟨fun h j _ => by rw [h], fun h => UInt8.toNat_inj.mp (Nat.eq_of_testBit_eq (fun j => ?_))⟩
  rcases Nat.lt_or_ge j 8 with hj | hj
  · exact h j hj
  · have hlt : ∀ x : UInt8, x.toNat < 2 ^ j :=
      fun x => lt_of_lt_of_le x.toNat_lt (Nat.pow_le_pow_right (by decide) hj)
    rw [Nat.testBit_lt_two_pow (hlt b), Nat.testBit_lt_two_pow (hlt v)]

theorem testBit_bitMask : (bitMask i).toNat.testBit j = decide (i % 8 = j) := by
  have hlt : 2 ^ (i % 8) < 256 :=
    calc 2 ^ (i % 8) < 2 ^ 8 := Nat.pow_lt_pow_right (by decide) (Nat.mod_lt _ (by decide))
      _ = 256 := rfl
  rw [bitMask, UInt8.toNat_ofNat', Nat.one_shiftLeft, Nat.mod_eq_of_lt hlt, Nat.testBit_two_pow]

theorem testBit_not (hj : j < 8) : (~~~b).toNat.testBit j = !b.toNat.testBit j := by
  have h : (~~~b.toBitVec).getLsbD j = (decide (j < 8) && !b.toBitVec.getLsbD j) := BitVec.getLsbD_not
  rw [decide_eq_true hj, Bool.true_and] at h
  exact h

theorem testBit_tailMask (hj : j < 8) : (bitMask n - 1).toNat.testBit j = decide (j < n % 8) := by
  have key : ∀ t < 8, ∀ j < 8, (UInt8.ofNat (1 <<< t) - 1).toNat.testBit j = decide (j < t) := by
    decide
  exact key _ (Nat.mod_lt _ (by decide)) j hj

theorem and_tailMask_eq_iff :
    b &&& (bitMask n - 1) = v &&& (bitMask n - 1) ↔
      ∀ j < n % 8, b.toNat.testBit j = v.toNat.testBit j := by
  have hlt : n % 8 < 8 := Nat.mod_lt _ (by decide)
  rw [byte_eq_iff]
  have hbit : ∀ x : UInt8, ∀ j < 8, (x &&& (bitMask n - 1)).toNat.testBit j =
      (x.toNat.testBit j && decide (j < n % 8)) := by
    intro x j hj
    rw [UInt8.toNat_and, Nat.testBit_and, testBit_tailMask hj]
  constructor
  · intro h j hj
    have := h j (by omega)
    rwa [hbit b j (by omega), hbit v j (by omega), decide_eq_true hj, Bool.and_true, Bool.and_true] at this
  · intro h j hj
    rw [hbit b j hj, hbit v j hj]
    by_cases hjn : j < n % 8
    · rw [h j hjn]
    · rw [decide_eq_false hjn, Bool.and_false, Bool.and_false]

/-! ### What it tells -/

/-- The index set of the bits below `nbits`. -/
def Holds (bm : Bitmap) (S : Finset ℕ) : Prop := ∀ i, i ∈ S ↔ i < bm.nbits ∧ bitAt bm.data i = true

theorem holds_indices (bm : Bitmap) : bm.Holds bm.indices := by
  intro i
  rw [indices, Finset.mem_filter, has_iff_bitAt, Finset.mem_range]
  exact ⟨fun h => h.2, fun h => ⟨h.1, h⟩⟩

theorem Holds.eq_indices (h : bm.Holds S) : S = bm.indices := by
  ext i
  rw [h i, holds_indices]

theorem Tight.fits (h : bm.Tight) : bm.Fits := by
  unfold Tight at h
  unfold Fits
  omega

theorem bitAt_tail (hb : data[k]? = some b) (hj : j < 8) : bitAt data (8 * k + j) = b.toNat.testBit j := by
  have hk : (8 * k + j) / 8 = k := by omega
  rw [bitAt_of_getElem? (hk ▸ hb), Nat.mul_add_mod, Nat.mod_eq_of_lt hj]

/-- Behind the complete bytes there is one that is used in part. -/
theorem getLast_of_tail (ht : bm.nbits % 8 ≠ 0) (h : bm.Tight) :
    ∃ b, bm.data.getLast? = some b ∧ bm.data[bm.nbits / 8]? = some b := by
  unfold Tight at h
  have hlen : bm.data.length = bm.nbits / 8 + 1 := by omega
  have hb := List.getElem?_eq_getElem (show bm.nbits / 8 < bm.data.length by omega)
  refine ⟨_, ?_, hb⟩
  rw [← hb, List.getLast?_eq_getElem?, hlen, Nat.add_sub_cancel]

theorem allBytes_eq (hk : k ≤ data.length) :
    allBytes v k data = some (decide (∀ i < 8 * k, bitAt data i = v.toNat.testBit (i % 8))) := by
  induction k generalizing data with
  | zero => simp [allBytes]
  | succ k ih =>
    obtain _ | ⟨b, data⟩ := data
    · cases hk
    · have hsplit : (∀ i < 8 * (k + 1), bitAt (b :: data) i = v.toNat.testBit (i % 8)) ↔
          b = v ∧ ∀ i < 8 * k, bitAt data i = v.toNat.testBit (i % 8) := by
        rw [byte_eq_iff]
        constructor
        · intro h
          refine ⟨fun j hj => ?_, fun i hi => ?_⟩
          · have := h j (by omega)
            rwa [bitAt_cons_lt hj, Nat.mod_eq_of_lt hj] at this
          · have := h (8 + i) (by omega)
            rwa [bitAt_cons_add, Nat.add_mod_left] at this
        · rintro ⟨hb, h⟩ i hi
          rcases Nat.lt_or_ge i 8 with h8 | h8
          · rw [bitAt_cons_lt h8, Nat.mod_eq_of_lt h8, hb i h8]
          · obtain ⟨m, rfl⟩ := Nat.exists_eq_add_of_le h8
            rw [bitAt_cons_add, Nat.add_mod_left, h m (by omega)]
      unfold allBytes
      simp only [hsplit]
      by_cases hb : b = v
      · rw [if_pos hb, ih (Nat.le_of_succ_le_succ hk)]
        simp only [hb, true_and]
      · rw [if_neg hb]
        simp only [hb, false_and, decide_false]

theorem agrees_eq (hp : bm.Tight) :
    agrees v bm = some (decide (∀ i < bm.nbits, bitAt bm.data i = v.toNat.testBit (i % 8))) := by
  have hfit : bm.nbits ≤ 8 * bm.data.length := hp.fits
  unfold agrees
  rw [allBytes_eq (by omega), Option.bind_some]
  by_cases ht : bm.nbits % 8 = 0
  · have hn : 8 * (bm.nbits / 8) = bm.nbits := by omega
    rw [hn, if_pos ht]
    split_ifs with h
    · rw [h]
    · rw [Bool.not_eq_false] at h
      rw [h]
  · obtain ⟨b, hlast, hb⟩ := getLast_of_tail ht hp
    rw [if_neg ht, hlast, Option.map_some]
    simp only [and_tailMask_eq_iff]
    split_ifs with h
    · refine congrArg some (decide_eq_false (fun hall => of_decide_eq_false h (fun i hi => hall i ?_))).symm
      omega
    · rw [Bool.not_eq_false] at h
      refine congrArg some (decide_eq_decide.mpr ⟨fun hj i hi => ?_, fun hall j hj => ?_⟩)
      · rcases Nat.lt_or_ge i (8 * (bm.nbits / 8)) with hlt | hge
        · exact of_decide_eq_true h i hlt
        · obtain ⟨m, rfl⟩ := Nat.exists_eq_add_of_le hge
          rw [bitAt_tail hb (by omega), Nat.mul_add_mod, Nat.mod_eq_of_lt (by omega), hj m (by omega)]
      · have := hall (8 * (bm.nbits / 8) + j) (by omega)
        rwa [bitAt_tail hb (by omega), Nat.mul_add_mod, Nat.mod_eq_of_lt (show j < 8 by omega)] at this

/-- What a plain bitmap tells is what is true of its set. -/
theorem Tight.shows (hp : bm.Tight) (hS : bm.Holds S) (hn : bm.nbits < 4294967296) : bm.Shows S where
  test i := by
    obtain ⟨t, ht⟩ := test_of_fits hp.fits (i := i)
    have hiff : t = true ↔ i ∈ S := by
      rw [hS i, ← has_iff_bitAt, Has, ht, Option.some.injEq]
    rw [ht]
    exact congrArg some (Bool.eq_iff_iff.mpr (hiff.trans (decide_eq_true_iff).symm))
  count := by
    unfold count32
    rw [count_eq hp, hS.eq_indices, Option.map_some]
    exact congrArg some (Nat.mod_eq_of_lt (lt_of_le_of_lt bm.setBits_le hn))
  full := by
    refine (agrees_eq hp).trans (congrArg some (decide_eq_decide.mpr ?_))
    rw [hS.eq_indices, indices, Finset.filter_eq_self]
    refine forall_congr' (fun i => ?_)
    have hff : (0xFF : UInt8).toNat.testBit (i % 8) = true := by
      have key : ∀ j < 8, (0xFF : UInt8).toNat.testBit j = true := by decide
      exact key _ (Nat.mod_lt _ (by decide))
    rw [Finset.mem_range, has_iff_bitAt, hff]
    exact imp_congr_right (fun hi => (and_iff_right hi).symm)
  empty := by
    refine (agrees_eq hp).trans (congrArg some (decide_eq_decide.mpr ?_))
    rw [hS.eq_indices, indices, Finset.filter_eq_empty_iff]
    refine forall_congr' (fun i => ?_)
    rw [Finset.mem_range, has_iff_bitAt, show (0 : UInt8).toNat = 0 from rfl, Nat.zero_testBit]
    exact imp_congr_right (fun hi => by rw [and_iff_right hi, Bool.not_eq_true])

/-! ### Calls -/

/-- A byte is changed in one bit, whose new value `g` makes of the old. -/
def ChangesBit (f : UInt8 → UInt8) (i : ℕ) (g : Bool → Bool) : Prop :=
  ∀ b : UInt8, ∀ j < 8, (f b).toNat.testBit j = if i % 8 = j then g (b.toNat.testBit j) else b.toNat.testBit j

theorem changesBit_or (i : ℕ) : ChangesBit (fun b => b ||| bitMask i) i (fun _ => true) := by
  intro b j _
  rw [UInt8.toNat_or, Nat.testBit_or, testBit_bitMask]
  split_ifs with h
  · rw [decide_eq_true h, Bool.or_true]
  · rw [decide_eq_false h, Bool.or_false]

theorem changesBit_and (i : ℕ) : ChangesBit (fun b => b &&& ~~~(bitMask i)) i (fun _ => false) := by
  intro b j hj
  rw [UInt8.toNat_and, Nat.testBit_and, testBit_not hj, testBit_bitMask]
  split_ifs with h
  · rw [decide_eq_true h, Bool.not_true, Bool.and_false]
  · rw [decide_eq_false h, Bool.not_false, Bool.and_true]

theorem changesBit_xor (i : ℕ) : ChangesBit (fun b => b ^^^ bitMask i) i not := by
  intro b j _
  rw [UInt8.toNat_xor, Nat.testBit_xor, testBit_bitMask]
  split_ifs with h
  · rw [decide_eq_true h, Bool.xor_true]
  · rw [decide_eq_false h, Bool.xor_false]

/-- After a call the buffer is as long and as plain as before, and the bitmap is the other set. -/
def After (bm : Bitmap) (S : Finset ℕ) (bm' : Bitmap) : Prop := bm'.nbits = bm.nbits ∧ bm'.Tight ∧ bm'.Holds S

theorem change_spec {f : UInt8 → UInt8} {g : Bool → Bool} (hf : ChangesBit f i g) (hp : bm.Tight) (hS : bm.Holds S)
    {T : Finset ℕ} (hT : ∀ j, j ∈ T ↔ if j = i ∧ i < bm.nbits then g (decide (i ∈ S)) = true else j ∈ S) :
    ∃ bm', bm.change f i = some bm' ∧ bm.After T bm' := by
  have hfit : bm.nbits ≤ 8 * bm.data.length := hp.fits
  unfold change
  by_cases hi : bm.nbits ≤ i
  · rw [if_pos hi]
    refine ⟨bm, rfl, rfl, hp, fun j => ?_⟩
    rw [hT j, if_neg (by omega), hS j]
  · rw [if_neg hi]
    have hlt : i / 8 < bm.data.length := by omega
    rw [List.getElem?_eq_getElem hlt]
    refine ⟨⟨bm.nbits, bm.data.set (i / 8) (f bm.data[i / 8])⟩, rfl, rfl, ?_, fun j => ?_⟩
    · exact List.length_set.trans hp
    · have hold : ∀ m, m / 8 = i / 8 → (bm.data[i / 8]).toNat.testBit (m % 8) = bitAt bm.data m := by
        intro m hm
        exact (bitAt_of_getElem? (by rw [hm, List.getElem?_eq_getElem hlt])).symm
      rw [hT j, bitAt_set hlt]
      by_cases hji : j = i
      · subst hji
        have hmem : decide (j ∈ S) = bitAt bm.data j :=
          Bool.eq_iff_iff.mpr (decide_eq_true_iff.trans ((hS j).trans (and_iff_right (by omega))))
        rw [if_pos rfl, if_pos ⟨rfl, by omega⟩, hf _ _ (Nat.mod_lt _ (by decide)), if_pos rfl, hold j rfl, hmem]
        exact (and_iff_right (show j < bm.nbits by omega)).symm
      · rw [if_neg (fun h => hji h.1), hS j]
        split_ifs with h8
        · rw [hf _ _ (Nat.mod_lt _ (by decide)), if_neg (by omega), hold j h8]
        · rfl

theorem bitAt_setAll (hp : bm.Tight) (h : i < bm.nbits) : bitAt bm.setAll.data i = true := by
  have hfit : bm.nbits ≤ 8 * bm.data.length := hp.fits
  have hff : ∀ j < 8, (0xFF : UInt8).toNat.testBit j = true := by decide
  have hi8 : i % 8 < 8 := Nat.mod_lt _ (by decide)
  unfold setAll sanitiseTail
  split_ifs with ht
  · exact (bitAt_replicate (by omega)).trans (hff _ hi8)
  · have h8 : bm.nbits % 8 ≠ 0 := ht
    have hlen : bm.data.length = (bm.nbits + 7) / 8 := hp
    unfold fill
    rw [bitAt_of_getElem? (by rw [List.getElem?_modify, List.getElem?_replicate, if_pos (by omega), List.length_replicate]; rfl)]
    show (ite _ _ _ : UInt8).toNat.testBit _ = true
    split_ifs with hlast
    · rw [UInt8.toNat_and, Nat.testBit_and, hff _ hi8, testBit_tailMask hi8, Bool.true_and]
      exact decide_eq_true (by show i % 8 < bm.nbits % 8; omega)
    · exact hff _ hi8

theorem nbits_setAll (bm : Bitmap) : bm.setAll.nbits = bm.nbits := by
  unfold setAll sanitiseTail
  split_ifs <;> rfl

theorem length_setAll (bm : Bitmap) : bm.setAll.data.length = bm.data.length := by
  unfold setAll sanitiseTail fill
  split_ifs
  · exact List.length_replicate
  · rw [List.length_modify]
    exact List.length_replicate

/-- One call, on the bitmap and on its set. -/
theorem step_spec (hp : bm.Tight) (hS : bm.Holds S) (op : BitOp) :
    ∃ bm', bm.step op = some bm' ∧ bm.After (op.apply bm.nbits S) bm' := by
  cases op with
  | set i =>
    refine change_spec (changesBit_or i) hp hS (fun j => ?_)
    simp only [BitOp.apply]
    by_cases hi : i < bm.nbits
    · rw [if_pos hi, Finset.mem_insert]
      split_ifs with hj
      · exact ⟨fun _ => trivial, fun _ => .inl hj.1⟩
      · exact or_iff_right (fun h => hj ⟨h, hi⟩)
    · rw [if_neg hi, if_neg (fun h => hi h.2)]
  | clear i =>
    refine change_spec (changesBit_and i) hp hS (fun j => ?_)
    rw [BitOp.apply, Finset.mem_erase]
    split_ifs with hj
    · exact ⟨fun h => absurd hj.1 h.1, fun h => nomatch h⟩
    · refine and_iff_right_of_imp (fun hmem hji => hj ⟨hji, ?_⟩)
      exact hji ▸ ((hS j).mp hmem).1
  | toggle i =>
    refine change_spec (changesBit_xor i) hp hS (fun j => ?_)
    simp only [BitOp.apply]
    by_cases hi : i < bm.nbits
    · rw [if_pos hi, Finset.mem_symmDiff, Finset.mem_singleton]
      split_ifs with hj
      · rw [hj.1]
        simp
      · have hji : j ≠ i := fun h => hj ⟨h, hi⟩
        simp [hji]
    · rw [if_neg hi, if_neg (fun h => hi h.2)]
  | setAll =>
    refine ⟨_, rfl, nbits_setAll bm, ?_, fun j => ?_⟩
    · unfold Tight
      rw [nbits_setAll, length_setAll]
      exact hp
    · rw [BitOp.apply, Finset.mem_range, nbits_setAll]
      exact (and_iff_left_of_imp (bitAt_setAll hp)).symm
  | clearAll =>
    refine ⟨_, rfl, rfl, ?_, fun j => ?_⟩
    · exact List.length_replicate.trans hp
    · have hfit : bm.nbits ≤ 8 * bm.data.length := hp.fits
      refine ⟨fun h => absurd h (Finset.notMem_empty j), fun ⟨hj, h⟩ => ?_⟩
      have hj' : j < bm.nbits := hj
      have h0 : bitAt (List.replicate bm.data.length 0) j = true := h
      rw [bitAt_replicate (by omega), show (0 : UInt8).toNat = 0 from rfl, Nat.zero_testBit] at h0
      exact absurd h0 (by decide)

/-- Any calls, by `step_spec`. -/
theorem run_spec (ops : List BitOp) :
    ∀ {bm : Bitmap} {S : Finset ℕ}, bm.Tight → bm.Holds S →
      ∃ bm', run ops bm = some bm' ∧ bm.After (ops.foldl (BitOp.apply bm.nbits) S) bm' := by
  induction ops with
  | nil => exact fun hp hS => ⟨_, rfl, rfl, hp, hS⟩
  | cons op ops ih =>
    intro bm S hp hS
    obtain ⟨m, hm, hnb, hpm, hSm⟩ := step_spec hp hS op
    obtain ⟨bm', hrun, hnb', hp', hS'⟩ := ih hpm hSm
    refine ⟨bm', ?_, hnb'.trans hnb, hp', ?_⟩
    · rw [run, hm]
      exact hrun
    · rw [hnb] at hS'
      exact hS'

/-- A bitmap over a buffer that ends with the last needed byte is a set of indices. -/
theorem isSet_of_tight (h : bm.Made) (hp : bm.Tight) : bm.IsSet := by
  intro ops
  obtain ⟨bm', hrun, hnb, hp', hS⟩ := run_spec ops hp (holds_indices bm)
  exact ⟨bm', hrun, hp'.shows hS (hnb ▸ h.1)⟩

/-- Nine bits over two bytes, some of them set behind the last index. -/
theorem isSet_of_tight_nine : (⟨9, [1, 254]⟩ : Bitmap).IsSet :=
  isSet_of_tight ⟨by decide, .inr ⟨by decide, by decide⟩⟩ rfl

/-- Nine bits over three bytes: when only the last is set, the bitmap says that it is empty. -/
theorem not_isSet_nine : (⟨9, [0, 0, 0]⟩ : Bitmap).Made ∧ ¬(⟨9, [0, 0, 0]⟩ : Bitmap).IsSet := by
  refine ⟨⟨by decide, .inr ⟨by decide, by decide⟩⟩, fun h => ?_⟩
  obtain ⟨bm', hrun, hshow⟩ := h [.set 8]
  obtain rfl : (⟨9, [0, 1, 0]⟩ : Bitmap) = bm' := Option.some.inj hrun
  exact absurd hshow.empty (by decide)

end Libx.Fer.Bitmap
