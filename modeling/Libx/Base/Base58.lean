import Libx.Agent.Message

/-!
# Libx.Base.Base58 — Base58

base58.c. A buffer is the list of its digits from its end, which is where the inner loop begins; what is returned is
what is written, and `none` stands for -1. Memory suffices.
-/

namespace Libx.Base.Base58

open Libx.Agent (Bytes bytes)
open List

/-- `kAlphabet`. -/
def kAlphabet : Bytes := bytes "123456789ABCDEFGHJKLMNPQRSTUVWXYZabcdefghijkmnopqrstuvwxyz"

/-- `kAlphabetMap`. -/
def kAlphabetMap : List ℤ := [
  -1, -1, -1, -1, -1, -1, -1, -1, -1, -1, -1, -1, -1, -1, -1, -1, -1, -1, -1, -1, -1, -1,
  -1, -1, -1, -1, -1, -1, -1, -1, -1, -1, -1, -1, -1, -1, -1, -1, -1, -1, -1, -1, -1, -1,
  -1, -1, -1, -1, -1, 0,  1,  2,  3,  4,  5,  6,  7,  8,  -1, -1, -1, -1, -1, -1,
  -1, 9,  10, 11, 12, 13, 14, 15, 16, -1, 17, 18, 19, 20, 21, -1,
  22, 23, 24, 25, 26, 27, 28, 29, 30, 31, 32, -1, -1, -1, -1, -1,
  -1, 33, 34, 35, 36, 37, 38, 39, 40, 41, 42, 43, -1, 44, 45, 46,
  47, 48, 49, 50, 51, 52, 53, 54, 55, 56, 57, -1, -1, -1, -1, -1]

def sym (d : ℕ) : UInt8 := kAlphabet.getD d 0

/-- The digit of a character; `none` where it is invalid. -/
def digit (ch : UInt8) : Option ℕ :=
  if ch.toNat ≥ 128 ∨ kAlphabetMap.getD ch.toNat (-1) = -1 then none else some (kAlphabetMap.getD ch.toNat (-1)).toNat

/-- The inner loop: `buf` times `a` plus `carry`, in base `b`; and the carry at its end. -/
def step (a b carry : ℕ) : List ℕ → List ℕ × ℕ
  | [] => ([], carry)
  | d :: buf =>
    let carry := carry + a * d
    let r := step a b (carry / b) buf
    (carry % b :: r.1, r.2)

/-- The outer loop. -/
def loop (a b bufSize : ℕ) (ds : List ℕ) : List ℕ := ds.foldl (fun buf d => (step a b d buf).1) (replicate bufSize 0)

/-- Leading zeros, and the other digits without leading zeros. -/
def convert (a b bufSize : ℕ) (ds : List ℕ) : List ℕ :=
  let zeros := (ds.takeWhile (· = 0)).length
  let buf := loop a b bufSize (ds.dropWhile (· = 0))
  replicate zeros 0 ++ buf.reverse.dropWhile (· = 0)

/-- `buf_size` of xBase58Encode. -/
def encodeSize (n : ℕ) : ℕ := n * 138 % 2 ^ 64 / 100 + 1

/-- `buf_size` of xBase58Decode. -/
def decodeSize (n : ℕ) : ℕ := n * 733 % 2 ^ 64 / 1000 + 1

/-- `xBase58Encode`; a NUL is written behind the text. -/
def xBase58Encode (src : Bytes) (dstLen : ℕ) : Option Bytes :=
  if src.length = 0 then if dstLen < 1 then none else some []
  else
    let digits := convert 256 58 (encodeSize src.length) (src.map UInt8.toNat)
    if dstLen < digits.length + 1 then none else some (digits.map sym)

/-- `xBase58Decode`; '1' is the digit 0. -/
def xBase58Decode (src : Bytes) (dstLen : ℕ) : Option Bytes :=
  if src.length = 0 then some []
  else
    match src.mapM digit with
    | none => none
    | some ds =>
      let decoded := convert 58 256 (decodeSize src.length) ds
      if dstLen < decoded.length then none else some (decoded.map UInt8.ofNat)

/-! ### The loops -/

theorem length_step (a b carry : ℕ) (buf : List ℕ) : (step a b carry buf).1.length = buf.length := by
  induction buf generalizing carry with
  | nil => rfl
  | cons d buf ih => rw [step, length_cons, length_cons, ih]

theorem step_lt {a b : ℕ} (hb : 1 < b) (carry : ℕ) (buf : List ℕ) : ∀ d ∈ (step a b carry buf).1, d < b := by
  induction buf generalizing carry with
  | nil => simp [step]
  | cons d buf ih =>
    intro x hx
    rcases mem_cons.1 hx with rfl | hx
    · exact Nat.mod_lt _ (by omega)
    · exact ih _ x hx

/-- **The inner loop** multiplies and adds. -/
theorem ofDigits_step (a b carry : ℕ) (buf : List ℕ) :
    Nat.ofDigits b (step a b carry buf).1 + b ^ buf.length * (step a b carry buf).2 = a * Nat.ofDigits b buf + carry := by
  induction buf generalizing carry with
  | nil => simp [step]
  | cons d buf ih =>
    rw [step, Nat.ofDigits_cons, Nat.ofDigits_cons, length_cons]
    have hdiv := Nat.mod_add_div (carry + a * d) b
    calc (carry + a * d) % b + b * Nat.ofDigits b (step a b ((carry + a * d) / b) buf).1 +
          b ^ (buf.length + 1) * (step a b ((carry + a * d) / b) buf).2
        = (carry + a * d) % b + b * (Nat.ofDigits b (step a b ((carry + a * d) / b) buf).1 +
          b ^ buf.length * (step a b ((carry + a * d) / b) buf).2) := by ring
      _ = (carry + a * d) % b + b * ((carry + a * d) / b) + a * (b * Nat.ofDigits b buf) := by rw [ih]; ring
      _ = a * (d + b * Nat.ofDigits b buf) + carry := by rw [hdiv]; ring

theorem loop_concat (a b n : ℕ) (ds : List ℕ) (d : ℕ) : loop a b n (ds ++ [d]) = (step a b d (loop a b n ds)).1 := by
  rw [loop, foldl_append]
  rfl

/-- The value of digits, the first one highest. -/
def number (a : ℕ) (ds : List ℕ) : ℕ := Nat.ofDigits a ds.reverse

theorem number_concat (a : ℕ) (ds : List ℕ) (d : ℕ) : number a (ds ++ [d]) = a * number a ds + d := by
  rw [number, reverse_append, reverse_singleton, singleton_append, Nat.ofDigits_cons, number, Nat.add_comm]

theorem number_lt {a : ℕ} (ha : 1 < a) {ds : List ℕ} (hds : ∀ d ∈ ds, d < a) : number a ds < a ^ ds.length := by
  rw [← length_reverse]
  exact Nat.ofDigits_lt_base_pow_length ha fun d hd => hds d (mem_reverse.1 hd)

theorem carry_eq_zero {a b : ℕ} {ds buf : List ℕ} {d : ℕ} (hval : Nat.ofDigits b buf = number a ds)
    (hlt : number a (ds ++ [d]) < b ^ buf.length) : (step a b d buf).2 = 0 := by
  have hstep := ofDigits_step a b d buf
  rw [hval, ← number_concat] at hstep
  by_contra hpos
  have := Nat.le_mul_of_pos_right (b ^ buf.length) (Nat.pos_of_ne_zero hpos)
  omega

section
variable {a b n : ℕ} (ha : 1 < a) (hb : 1 < b)
include ha hb

/-- **The outer loop** computes the number, as long as the buffer holds it. -/
theorem loop_spec (ds : List ℕ) (hds : ∀ d ∈ ds, d < a) (hn : a ^ ds.length ≤ b ^ n) :
    (loop a b n ds).length = n ∧ (∀ d ∈ loop a b n ds, d < b) ∧ Nat.ofDigits b (loop a b n ds) = number a ds := by
  induction ds using reverseRecOn with
  | nil =>
    refine ⟨length_replicate, fun d hd => ?_, ?_⟩
    · rw [(mem_replicate.1 hd).2]
      omega
    · exact (Nat.ofDigits_append_replicate_zero []).trans rfl
  | append_singleton ds d ih =>
    obtain ⟨hlen, hlt, hval⟩ := ih (fun x hx => hds x (mem_append_left _ hx))
      (Nat.le_trans (Nat.pow_le_pow_right (by omega) (by simp)) hn)
    have hcarry : (step a b d (loop a b n ds)).2 = 0 :=
      carry_eq_zero hval (by rw [hlen]; exact Nat.lt_of_lt_of_le (number_lt ha hds) hn)
    have hstep := ofDigits_step a b d (loop a b n ds)
    rw [hval, ← number_concat, hcarry, Nat.mul_zero, Nat.add_zero] at hstep
    rw [loop_concat]
    exact ⟨(length_step ..).trans hlen, step_lt hb _ _, hstep⟩

/-- **No carry is dropped.** -/
theorem step_carry {ds pre post : List ℕ} {d : ℕ} (hds : ∀ d ∈ ds, d < a) (hn : a ^ ds.length ≤ b ^ n)
    (h : ds = pre ++ d :: post) : (step a b d (loop a b n pre)).2 = 0 := by
  have hpre : pre ++ [d] <+: ds := ⟨post, by rw [h, append_assoc, singleton_append]⟩
  have hle : a ^ (pre ++ [d]).length ≤ b ^ n := Nat.le_trans (Nat.pow_le_pow_right (by omega) hpre.length_le) hn
  have hlow : ∀ x ∈ pre ++ [d], x < a := fun x hx => hds x (hpre.subset hx)
  obtain ⟨hlen, -, hval⟩ := loop_spec (n := n) ha hb pre (fun x hx => hlow x (mem_append_left _ hx))
    (Nat.le_trans (Nat.pow_le_pow_right (by omega) (by simp)) hle)
  exact carry_eq_zero hval (by rw [hlen]; exact Nat.lt_of_lt_of_le (number_lt ha hlow) hle)

/-- **What is computed**: the leading zeros, and the number in the other base. -/
theorem convert_eq {ds : List ℕ} (hds : ∀ d ∈ ds, d < a) (hn : a ^ ds.length ≤ b ^ n) :
    convert a b n ds = replicate (ds.takeWhile (· = 0)).length 0 ++ (Nat.digits b (number a (ds.dropWhile (· = 0)))).reverse := by
  obtain ⟨-, hlt, hval⟩ := loop_spec (n := n) ha hb (ds.dropWhile (· = 0)) (fun d hd => hds d ((dropWhile_suffix _).subset hd))
    (Nat.le_trans (Nat.pow_le_pow_right (by omega) (dropWhile_suffix _).length_le) hn)
  rw [convert]
  generalize loop a b n (ds.dropWhile (· = 0)) = buf at hlt hval
  have hsplit : ∃ k, buf = buf.rdropWhile (· = 0) ++ replicate k 0 := by
    refine ⟨(buf.rtakeWhile (· = 0)).length, ?_⟩
    have hz : buf.rtakeWhile (· = 0) = replicate (buf.rtakeWhile (· = 0)).length 0 :=
      eq_replicate_of_mem fun x hx => by simpa using mem_rtakeWhile_imp hx
    rw [← hz, rdropWhile_append_rtakeWhile]
  have hdigits : Nat.digits b (number a (ds.dropWhile (· = 0))) = buf.rdropWhile (· = 0) := by
    obtain ⟨k, hk⟩ := hsplit
    rw [← hval, hk, Nat.ofDigits_append_replicate_zero, ← hk]
    refine Nat.digits_ofDigits b hb _ (fun d hd => hlt d ((List.rdropWhile_prefix ..).subset hd)) fun hne => ?_
    simpa using rdropWhile_last_not _ _ hne
  rw [hdigits, rdropWhile, reverse_reverse]

theorem convert_lt {ds : List ℕ} (hds : ∀ d ∈ ds, d < a) (hn : a ^ ds.length ≤ b ^ n) : ∀ d ∈ convert a b n ds, d < b := by
  intro d hd
  rw [convert_eq ha hb hds hn, mem_append] at hd
  rcases hd with hd | hd
  · rw [(mem_replicate.1 hd).2]
    omega
  · exact Nat.digits_lt_base hb (mem_reverse.1 hd)

/-- **There and back.** -/
theorem convert_convert {ds : List ℕ} {m : ℕ} (hds : ∀ d ∈ ds, d < a) (hn : a ^ ds.length ≤ b ^ n)
    (hm : b ^ (convert a b n ds).length ≤ a ^ m) : convert b a m (convert a b n ds) = ds := by
  rw [convert_eq hb ha (convert_lt ha hb hds hn) hm, convert_eq ha hb hds hn]
  generalize hV : number a (ds.dropWhile (· = 0)) = V
  have hdrop : (Nat.digits b V).reverse.dropWhile (· = 0) = (Nat.digits b V).reverse := by
    have hself : (Nat.digits b V).rdropWhile (· = 0) = Nat.digits b V := rdropWhile_eq_self_iff.2 fun hne => by
      have := Nat.getLast_digit_ne_zero b (Nat.digits_ne_nil_iff_ne_zero.1 hne)
      simpa using this
    rw [rdropWhile] at hself
    exact reverse_injective (hself.trans (reverse_reverse _).symm)
  have htake : (Nat.digits b V).reverse.takeWhile (· = 0) = [] := by
    have happ := takeWhile_append_dropWhile (p := (· = 0)) (l := (Nat.digits b V).reverse)
    rw [hdrop] at happ
    exact append_left_eq_self.1 happ
  have hzeros : ∀ x ∈ replicate (ds.takeWhile (· = 0)).length 0, decide (x = 0) = true := fun x hx => by
    rw [(mem_replicate.1 hx).2]
    rfl
  have hback : Nat.digits a V = (ds.dropWhile (· = 0)).reverse := by
    rw [← hV, number]
    refine Nat.digits_ofDigits a ha _ (fun d hd => hds d ((dropWhile_suffix _).subset (mem_reverse.1 hd))) fun hne => ?_
    rw [getLast_reverse]
    simpa using head_dropWhile_not (fun x => decide (x = 0)) (by simpa using hne)
  rw [takeWhile_append_of_pos hzeros, dropWhile_append_of_pos hzeros, hdrop, htake, append_nil, length_replicate, number,
    reverse_reverse, Nat.ofDigits_digits, hback, reverse_reverse]
  conv_rhs => rw [← takeWhile_append_dropWhile (p := (· = 0)) (l := ds)]
  rw [eq_replicate_of_mem (a := 0) (l := ds.takeWhile (· = 0)) fun x hx => by simpa using mem_takeWhile_imp hx, length_replicate]

end

/-! ### The buffers -/

theorem pow_le_size {a b p q : ℕ} (hp : 0 < p) (hb : 1 < b) (h : a ^ p ≤ b ^ q) (n : ℕ) : a ^ n ≤ b ^ (n * q / p + 1) := by
  refine (Nat.pow_le_pow_iff_left hp.ne').1 ?_
  calc (a ^ n) ^ p = (a ^ p) ^ n := by rw [← pow_mul, ← pow_mul, Nat.mul_comm]
    _ ≤ (b ^ q) ^ n := Nat.pow_le_pow_left h n
    _ = b ^ (n * q) := by rw [← pow_mul, Nat.mul_comm]
    _ ≤ b ^ ((n * q / p + 1) * p) := Nat.pow_le_pow_right (by omega) (by
      have := Nat.div_add_mod (n * q) p
      have := Nat.mod_lt (n * q) hp
      rw [Nat.add_mul, Nat.mul_comm _ p]
      omega)
    _ = (b ^ (n * q / p + 1)) ^ p := by rw [← pow_mul]

theorem pows : 256 ^ 100 ≤ 58 ^ 138 ∧ 58 ^ 1000 ≤ 256 ^ 733 := by
  decide +kernel

theorem pow_encodeSize {n : ℕ} (h : n * 138 < 2 ^ 64) : 256 ^ n ≤ 58 ^ encodeSize n := by
  rw [encodeSize, Nat.mod_eq_of_lt h]
  exact pow_le_size (by decide) (by decide) pows.1 n

theorem pow_decodeSize {n : ℕ} (h : n * 733 < 2 ^ 64) : 58 ^ n ≤ 256 ^ decodeSize n := by
  rw [decodeSize, Nat.mod_eq_of_lt h]
  exact pow_le_size (by decide) (by decide) pows.2 n

/-! ### The alphabet -/

theorem tables : kAlphabet.length = 58 ∧ (∀ d < 58, digit (sym d) = some d) ∧
    ∀ n < 256, ∀ d ∈ digit (UInt8.ofNat n), sym d = UInt8.ofNat n ∧ d < 58 := by
  decide +kernel

theorem sym_digit {c : UInt8} {d : ℕ} (h : digit c = some d) : sym d = c ∧ d < 58 := by
  have hc := tables.2.2 c.toNat c.toNat_lt
  rw [UInt8.ofNat_toNat] at hc
  exact hc d h

theorem digit_isSome (c : UInt8) : (digit c).isSome ↔ c ∈ kAlphabet := by
  have hlen := tables.1
  constructor
  · intro h
    obtain ⟨d, hd⟩ := Option.isSome_iff_exists.1 h
    obtain ⟨rfl, hlt⟩ := sym_digit hd
    rw [sym, getD_eq_getElem?_getD, getElem?_eq_getElem (by omega)]
    exact getElem_mem _
  · intro h
    obtain ⟨d, hd, rfl⟩ := getElem_of_mem h
    have hsym := tables.2.1 d (by omega)
    rw [sym, getD_eq_getElem?_getD, getElem?_eq_getElem hd, Option.getD_some] at hsym
    rw [hsym]
    rfl

theorem mapM_digit_sym {ds : List ℕ} (h : ∀ d ∈ ds, d < 58) : (ds.map sym).mapM digit = some ds := by
  induction ds with
  | nil => rfl
  | cons d ds ih =>
    rw [map_cons, mapM_cons, tables.2.1 d (h d mem_cons_self), ih fun x hx => h x (mem_cons_of_mem _ hx)]
    rfl

theorem exists_digits {text : Bytes} (h : ∀ c ∈ text, c ∈ kAlphabet) : ∃ ds : List ℕ, text = ds.map sym ∧ ∀ d ∈ ds, d < 58 := by
  induction text with
  | nil => exact ⟨[], rfl, by simp⟩
  | cons c text ih =>
    obtain ⟨ds, rfl, hlt⟩ := ih fun x hx => h x (mem_cons_of_mem _ hx)
    obtain ⟨d, hd⟩ := Option.isSome_iff_exists.1 ((digit_isSome c).2 (h c mem_cons_self))
    obtain ⟨rfl, hd58⟩ := sym_digit hd
    exact ⟨d :: ds, rfl, by simpa using ⟨hd58, hlt⟩⟩

theorem mapM_digit_none {text : Bytes} {c : UInt8} (hc : c ∈ text) (h : c ∉ kAlphabet) : text.mapM digit = none := by
  induction text with
  | nil => cases hc
  | cons x text ih =>
    rw [mapM_cons]
    rcases mem_cons.1 hc with rfl | hc
    · rw [Option.not_isSome_iff_eq_none.1 fun hs => h ((digit_isSome c).1 hs)]
      rfl
    · rw [ih hc]
      cases digit x <;> rfl

/-! ### The functions -/

/-- What a function returns, given the room at `dst`. -/
def Returns (f : ℕ → Option Bytes) (room : ℕ) (out : Bytes) : Prop := ∀ n, f n = if n < room then none else some out

/-- No carry is left over by the inner loop, at any turn of the outer one. -/
def NoCarry (a b bufSize : ℕ) (ds : List ℕ) : Prop :=
  ∀ pre d post, ds.dropWhile (· = 0) = pre ++ d :: post → (step a b d (loop a b bufSize pre)).2 = 0

theorem noCarry {a b n : ℕ} (ha : 1 < a) (hb : 1 < b) {ds : List ℕ} (hds : ∀ d ∈ ds, d < a) (hn : a ^ ds.length ≤ b ^ n) :
    NoCarry a b n ds := fun _ _ _ h =>
  step_carry ha hb (fun d hd => hds d ((dropWhile_suffix _).subset hd))
    (Nat.le_trans (Nat.pow_le_pow_right (by omega) (dropWhile_suffix _).length_le) hn) h

theorem convert_nil (a b n : ℕ) : convert a b n [] = [] := by
  simp [convert, loop]

theorem returns_encode (src : Bytes) : Returns (xBase58Encode src)
    (((convert 256 58 (encodeSize src.length) (src.map UInt8.toNat)).map sym).length + 1)
    ((convert 256 58 (encodeSize src.length) (src.map UInt8.toNat)).map sym) := by
  intro n
  rw [xBase58Encode, length_map]
  cases src with
  | nil => rw [map_nil, convert_nil]; rfl
  | cons b src => rw [if_neg (by simp)]

theorem returns_decode {ds : List ℕ} (h : ∀ d ∈ ds, d < 58) : Returns (xBase58Decode (ds.map sym))
    ((convert 58 256 (decodeSize ds.length) ds).map UInt8.ofNat).length
    ((convert 58 256 (decodeSize ds.length) ds).map UInt8.ofNat) := by
  intro n
  rw [xBase58Decode, mapM_digit_sym h, length_map, length_map]
  cases ds with
  | nil => rw [convert_nil]; rfl
  | cons d ds => rw [if_neg (by simp)]

theorem map_ofNat_toNat (src : Bytes) : (src.map UInt8.toNat).map UInt8.ofNat = src := by
  rw [map_map]
  exact (map_congr_left fun b _ => UInt8.ofNat_toNat).trans (map_id' src)

theorem map_toNat_ofNat {ds : List ℕ} (h : ∀ d ∈ ds, d < 256) : (ds.map UInt8.ofNat).map UInt8.toNat = ds := by
  rw [map_map]
  exact (map_congr_left fun d hd => UInt8.toNat_ofNat_of_lt' (h d hd)).trans (map_id' ds)

theorem toNat_lt (src : Bytes) : ∀ d ∈ src.map UInt8.toNat, d < 256 := by
  simp only [mem_map]
  rintro _ ⟨b, -, rfl⟩
  exact b.toNat_lt

/-- **Base58 is a bijection**: decoding an encoding, encoding what was decoded, other characters, and no carry is
dropped; where the sizes of the buffers do not wrap. -/
theorem base58_bijective :
    (∀ src : Bytes, src.length * 138 < 2 ^ 64 → NoCarry 256 58 (encodeSize src.length) (src.map UInt8.toNat) ∧
      ∃ text, (∀ c ∈ text, c ∈ kAlphabet) ∧ Returns (xBase58Encode src) (text.length + 1) text ∧
        (text.length * 733 < 2 ^ 64 → Returns (xBase58Decode text) src.length src)) ∧
    (∀ text : Bytes, (∀ c ∈ text, c ∈ kAlphabet) → text.length * 733 < 2 ^ 64 →
      (∀ ds ∈ text.mapM digit, NoCarry 58 256 (decodeSize text.length) ds) ∧
      ∃ src, Returns (xBase58Decode text) src.length src ∧
        (src.length * 138 < 2 ^ 64 → Returns (xBase58Encode src) (text.length + 1) text)) ∧
    ∀ text : Bytes, (∃ c ∈ text, c ∉ kAlphabet) → ∀ n, xBase58Decode text n = none := by
  refine ⟨fun src hsrc => ?_, fun text hin htext => ?_, ?_⟩
  · have hds := toNat_lt src
    have hn : 256 ^ (src.map UInt8.toNat).length ≤ 58 ^ encodeSize src.length := by
      rw [length_map]
      exact pow_encodeSize hsrc
    have hlt := convert_lt (by decide) (by decide) hds hn
    refine ⟨noCarry (by decide) (by decide) hds hn, _, ?_, returns_encode src, fun htext => ?_⟩
    · simp only [mem_map]
      rintro _ ⟨d, hd, rfl⟩
      exact (digit_isSome _).1 (by rw [tables.2.1 d (hlt d hd)]; rfl)
    · rw [length_map] at htext
      have h := returns_decode hlt
      rwa [convert_convert (by decide) (by decide) hds hn (pow_decodeSize htext), map_ofNat_toNat] at h
  · obtain ⟨ds, rfl, hds⟩ := exists_digits hin
    rw [length_map] at htext ⊢
    have hn := pow_decodeSize htext
    have hlt := convert_lt (by decide) (by decide) hds hn
    refine ⟨fun ds' hds' => ?_, _, returns_decode hds, fun hsrc => ?_⟩
    · obtain rfl : ds = ds' := Option.some.inj ((mapM_digit_sym hds).symm.trans hds')
      exact noCarry (by decide) (by decide) hds hn
    · have h := returns_encode ((convert 58 256 (decodeSize ds.length) ds).map UInt8.ofNat)
      simp only [length_map] at h hsrc
      rwa [map_toNat_ofNat hlt, convert_convert (by decide) (by decide) hds hn (pow_encodeSize hsrc)] at h
  · rintro text ⟨c, hc, hno⟩ n
    rw [xBase58Decode, mapM_digit_none hc hno, if_neg fun h => by rw [length_eq_zero_iff.1 h] at hc; cases hc]

end Libx.Base.Base58
