import Libx.Ice.Writer

/-!
# Libx.Ice.Fingerprint — what the checksum of a message notices

crc32.c, under the fingerprint of a STUN message.  A step of the checksum can be
taken back but for the byte it has read: the top byte of what it leaves tells which entry of the table went in.
-/

namespace Libx.Ice

open Libx.Agent (Bytes)
open List

/-- `crc32_compute_entry`. -/
def crc32ComputeEntry (index : UInt32) : UInt32 :=
  (fun crc : UInt32 => if crc &&& 1 ≠ 0 then (crc >>> 1) ^^^ 0xEDB88320 else crc >>> 1)^[8] index

/-- `crc32_table`. -/
def crc32Table : List UInt32 := (List.range 256).map (fun i => crc32ComputeEntry (UInt32.ofNat i))

/-- The body of the loop. -/
def crc32Step (crc : UInt32) (b : UInt8) : UInt32 :=
  crc32Table.getD ((crc ^^^ b.toUInt32) &&& 0xFF).toNat 0 ^^^ (crc >>> 8)

def xCrc32 (data : Bytes) : UInt32 := data.foldl crc32Step 0xFFFFFFFF ^^^ 0xFFFFFFFF

/-- The index of the entry with the top byte `t`: the bits of its loop, last to first. -/
def indexOfTop (t : ℕ) : ℕ :=
  ((fun y : UInt32 => if y >>> 31 = 1 then ((y ^^^ 0xEDB88320) <<< 1) ||| 1 else y <<< 1)^[8] (UInt32.ofNat t <<< 24) &&& 0xFF).toNat

theorem tops : crc32Table.map (fun e => indexOfTop (e.toNat >>> 24)) = range 256 := by
  decide +kernel

theorem indexOfTop_table {i : ℕ} (h : i < 256) : indexOfTop ((crc32Table.getD i 0).toNat >>> 24) = i := by
  have hi := congrArg (·[i]?) tops
  rw [getElem?_map, getElem?_range h] at hi
  obtain ⟨e, he, hi⟩ := Option.map_eq_some_iff.mp hi
  rw [getD_eq_getElem?_getD, he]
  exact hi

variable {s s' : UInt32} {b b' : UInt8} {as bs : Bytes} {k : ℕ}

theorem index_eq (s : UInt32) (b : UInt8) : ((s ^^^ b.toUInt32) &&& 0xFF).toNat = s.toNat % 256 ^^^ b.toNat := by
  have h : (255 : ℕ) = 2 ^ 8 - 1 := rfl
  rw [UInt32.toNat_and, UInt32.toNat_xor, UInt8.toNat_toUInt32, show (0xFF : UInt32).toNat = 255 from rfl,
    Nat.and_xor_distrib_right, h, Nat.and_two_pow_sub_one_eq_mod, Nat.and_two_pow_sub_one_eq_mod,
    Nat.mod_eq_of_lt b.toNat_lt]

/-- **A step is taken back**: from the bits above `k`, with the top byte among them. -/
theorem crc32Step_back (hk : k ≤ 24) (h : (crc32Step s b).toNat >>> k = (crc32Step s' b').toNat >>> k) :
    s.toNat % 256 ^^^ b.toNat = s'.toNat % 256 ^^^ b'.toNat ∧ s.toNat >>> (8 + k) = s'.toNat >>> (8 + k) := by
  have hstep : ∀ (s : UInt32) (b : UInt8) (k : ℕ), (crc32Step s b).toNat >>> k =
      (crc32Table.getD (s.toNat % 256 ^^^ b.toNat) 0).toNat >>> k ^^^ s.toNat >>> (8 + k) := by
    intro s b k
    rw [crc32Step, index_eq, UInt32.toNat_xor, Nat.shiftRight_xor_distrib, UInt32.toNat_shiftRight, Nat.shiftRight_add]
    rfl
  have hlt : ∀ (s : UInt32) (b : UInt8), s.toNat % 256 ^^^ b.toNat < 256 := fun s b =>
    Nat.xor_lt_two_pow (n := 8) (Nat.mod_lt _ (by decide)) b.toNat_lt
  have htop := congrArg (· >>> (24 - k)) h
  simp only [← Nat.shiftRight_add, Nat.add_sub_cancel' hk] at htop
  have hzero : ∀ s : UInt32, s.toNat >>> (8 + 24) = 0 := fun s => Nat.shiftRight_eq_zero _ _ s.toNat_lt
  rw [hstep, hstep, hzero, hzero, Nat.xor_zero, Nat.xor_zero] at htop
  have hindex := congrArg indexOfTop htop
  rw [indexOfTop_table (hlt s b), indexOfTop_table (hlt s' b')] at hindex
  rw [hstep, hstep, hindex] at h
  exact ⟨hindex, Nat.xor_right_inj.mp h⟩

/-- Up to four bytes are read back from where they lead to. -/
theorem crc32_back (hlen : as.length = bs.length) (h4 : as.length ≤ 4) (h : as.foldl crc32Step s = bs.foldl crc32Step s') :
    s.toNat >>> (8 * as.length) = s'.toNat >>> (8 * as.length) ∧ (s = s' → as = bs) := by
  induction as generalizing bs s s' with
  | nil =>
    obtain rfl := length_eq_zero_iff.mp hlen.symm
    exact ⟨congrArg (·.toNat >>> 0) h, fun _ => rfl⟩
  | cons a as ih =>
    cases bs with
    | nil => cases hlen
    | cons b bs =>
      rw [length_cons] at h4
      obtain ⟨hs, heq⟩ := ih (Nat.succ.inj hlen) (by omega) h
      obtain ⟨hindex, hback⟩ := crc32Step_back (by omega) hs
      refine ⟨by rwa [length_cons, Nat.mul_succ, Nat.add_comm], ?_⟩
      rintro rfl
      obtain rfl := UInt8.toNat_inj.mp (Nat.xor_right_inj.mp hindex)
      rw [heq rfl]

theorem crc32Step_injective (b : UInt8) : Function.Injective (crc32Step · b) := by
  intro s s' h
  obtain ⟨hindex, hback⟩ := crc32Step_back (Nat.zero_le 24) (congrArg (·.toNat >>> 0) h)
  have hlow := Nat.xor_left_inj.mp hindex
  rw [Nat.shiftRight_eq_div_pow, Nat.shiftRight_eq_div_pow] at hback
  exact UInt32.toNat_inj.mp (by omega)

/-- **A burst of up to four bytes is noticed.** -/
theorem crc32_ne_of_burst (pre post : Bytes) (hlen : as.length = bs.length) (h4 : as.length ≤ 4) (hne : as ≠ bs) :
    xCrc32 (pre ++ as ++ post) ≠ xCrc32 (pre ++ bs ++ post) := by
  intro h
  have hinj : ∀ post : Bytes, Function.Injective (fun s => post.foldl crc32Step s) := by
    intro post
    induction post with
    | nil => exact Function.injective_id
    | cons b post ih => exact ih.comp (crc32Step_injective b)
  have h := (UInt32.xor_left_inj _).mp h
  simp only [foldl_append] at h
  exact hne ((crc32_back hlen h4 (hinj post h)).2 rfl)

/-! ### The fingerprint -/

/-- **A damaged message fails its fingerprint**: one to four changed bytes behind the length field, before the
attribute. -/
theorem not_verifyFingerprint_of_burst {pre post : Bytes} {a : Attr} (hpre : 4 ≤ pre.length)
    (hsigned : pre.length + as.length ≤ headerSize + a.offset) (hlen : as.length = bs.length) (h4 : as.length ≤ 4)
    (hne : as ≠ bs) (h : verifyFingerprint xCrc32 (pre ++ as ++ post) a = true) :
    verifyFingerprint xCrc32 (pre ++ bs ++ post) a = false := by
  have hcut : ∀ {as : Bytes}, pre.length + as.length ≤ headerSize + a.offset →
      (pre ++ as ++ post).take 2 ++ writeU16 (a.offset + 8) ++
        ((pre ++ as ++ post).drop 4).take (headerSize + a.offset - 4) =
      (pre.take 2 ++ writeU16 (a.offset + 8) ++ pre.drop 4) ++ as ++
        post.take (headerSize + a.offset - pre.length - as.length) := by
    intro as h
    have h1 : (pre.drop 4).take (headerSize + a.offset - 4) = pre.drop 4 :=
      take_of_length_le (by rw [length_drop]; omega)
    have h2 : headerSize + a.offset - 4 - (pre.length - 4) = headerSize + a.offset - pre.length := by omega
    rw [append_assoc pre, take_append_of_le_length (by omega), drop_append_of_le_length hpre, take_append, length_drop,
      h1, h2, take_append, take_of_length_le (show as.length ≤ _ by omega), ← append_assoc, ← append_assoc]
  unfold verifyFingerprint at h ⊢
  rw [hcut hsigned] at h
  rw [hcut (hlen ▸ hsigned), ← hlen]
  obtain ⟨hfour, hcrc⟩ := (Bool.and_eq_true_iff).mp h
  rw [hfour, Bool.true_and, decide_eq_false_iff_not]
  intro heq
  have hxor := Nat.xor_left_inj.mp ((of_decide_eq_true hcrc).trans heq.symm)
  exact crc32_ne_of_burst _ _ hlen h4 hne (UInt32.toNat_inj.mp hxor)

theorem not_verifyFingerprint_bit :
    verifyFingerprint xCrc32 (replicate 19 0 ++ [1] ++ []) ⟨attrFingerprint, writeU32 3130098013, 0⟩ = false :=
  @not_verifyFingerprint_of_burst [0] [1] (replicate 19 0) [] _ (by decide) (by decide) rfl (by decide) (by decide)
    (by decide +kernel)

end Libx.Ice
