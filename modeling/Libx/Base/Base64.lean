import Libx.Agent.Message

/-!
# Libx.Base.Base64 — Base64

base64.c. The functions on lists of bytes; what is returned is what is written, and `none` stands for -1.
-/

namespace Libx.Base.Base64

open Libx.Agent (Bytes bytes)
open List

/-- `kAlphabet`. -/
def kAlphabet : Bytes := bytes "ABCDEFGHIJKLMNOPQRSTUVWXYZabcdefghijklmnopqrstuvwxyz0123456789+/"

def sym (v : ℕ) : UInt8 := kAlphabet.getD v 0

/-- `base64_val`; `none` is -1. -/
def base64Val (c : UInt8) : Option ℕ :=
  if 65 ≤ c.toNat ∧ c.toNat ≤ 90 then some (c.toNat - 65)
  else if 97 ≤ c.toNat ∧ c.toNat ≤ 122 then some (c.toNat - 97 + 26)
  else if 48 ≤ c.toNat ∧ c.toNat ≤ 57 then some (c.toNat - 48 + 52)
  else if c.toNat = 43 ∨ c.toNat = 45 then some 62
  else if c.toNat = 47 ∨ c.toNat = 95 then some 63
  else none

def padChar : UInt8 := 61

def encode : Bytes → Bytes
  | a :: b :: c :: src =>
    sym (a.toNat >>> 2) :: sym ((a.toNat &&& 3) <<< 4 ||| (b.toNat >>> 4 &&& 15)) ::
      sym ((b.toNat &&& 15) <<< 2 ||| (c.toNat >>> 6 &&& 3)) :: sym (c.toNat &&& 63) :: encode src
  | [a, b] =>
    [sym (a.toNat >>> 2), sym ((a.toNat &&& 3) <<< 4 ||| (b.toNat >>> 4 &&& 15)), sym ((b.toNat &&& 15) <<< 2), padChar]
  | [a] => [sym (a.toNat >>> 2), sym ((a.toNat &&& 3) <<< 4), padChar, padChar]
  | [] => []

/-- `xBase64Encode`; a NUL is written behind the text. -/
def xBase64Encode (src : Bytes) (dstLen : ℕ) : Option Bytes :=
  if dstLen < (src.length + 2) / 3 * 4 + 1 then none else some (encode src)

/-- The first loop of xBase64Decode: `pad_count`. -/
def scan (gotPad : Bool) (padCount : ℕ) : Bytes → Option ℕ
  | [] => some padCount
  | c :: src =>
    if c = padChar then scan true (padCount + 1) src
    else if gotPad then none
    else if base64Val c = none then none
    else scan gotPad padCount src

def group (need out v0 v1 v2 v3 : ℕ) : Bytes :=
  let dst := [UInt8.ofNat (v0 <<< 2 ||| v1 >>> 4)]
  let dst := if out + dst.length < need then dst ++ [UInt8.ofNat ((v1 &&& 15) <<< 4 ||| v2 >>> 2)] else dst
  if out + dst.length < need then dst ++ [UInt8.ofNat ((v2 &&& 3) <<< 6 ||| v3)] else dst

def val (c : UInt8) : ℕ := (base64Val c).getD 0

def decode (need out : ℕ) : Bytes → Bytes
  | c0 :: c1 :: c2 :: c3 :: src =>
    let dst := group need out (val c0) (val c1) (val c2) (val c3)
    dst ++ decode need (out + dst.length) src
  | [c0, c1, c2] => group need out (val c0) (val c1) (val c2) 0
  | [c0, c1] => group need out (val c0) (val c1) 0 0
  | [c0] => group need out (val c0) 0 0 0
  | [] => []

/-- `xBase64Decode`. -/
def xBase64Decode (src : Bytes) (dstLen : ℕ) : Option Bytes :=
  if src.length = 0 then some []
  else
    match scan false 0 src with
    | none => none
    | some padCount =>
      if padCount > 2 then none
      else
        let contentLen := src.length - padCount
        let need := contentLen * 3 / 4
        if contentLen % 4 = 1 then none
        else if dstLen < need then none
        else some (decode need 0 (src.take contentLen))

/-- `XBASE64_ENCODE_MAXLEN`. -/
def encodeMaxLen (n : ℕ) : ℕ := (n + 2) / 3 * 4 + 1

/-- `XBASE64_DECODE_MAXLEN`. -/
def decodeMaxLen (n : ℕ) : ℕ := n * 3 / 4 + 2

/-! ### What is asked for -/

/-- A character of the standard or of the URL-safe alphabet. -/
def InAlphabet (c : UInt8) : Prop := c ∈ kAlphabet ∨ c ∈ bytes "-_"

def value (c : UInt8) : ℕ := if c ∈ bytes "-_" then 62 + (bytes "-_").idxOf c else kAlphabet.idxOf c

/-- The bytes of a sequence of six bits each, four by four; the bits that make no byte are ignored. -/
def denoted : List ℕ → Bytes
  | v0 :: v1 :: v2 :: v3 :: vs =>
    let n := ((v0 * 64 + v1) * 64 + v2) * 64 + v3
    UInt8.ofNat (n / 65536) :: UInt8.ofNat (n / 256 % 256) :: UInt8.ofNat (n % 256) :: denoted vs
  | [v0, v1, v2] =>
    let n := (v0 * 64 + v1) * 64 + v2
    [UInt8.ofNat (n / 1024), UInt8.ofNat (n / 4 % 256)]
  | [v0, v1] => [UInt8.ofNat ((v0 * 64 + v1) / 16)]
  | [_] => []
  | [] => []

/-- Characters of the alphabets, not one more than a multiple of four, and so many '='. -/
def Padded (text content : Bytes) (pads : ℕ) : Prop :=
  text = content ++ replicate pads padChar ∧ (∀ c ∈ content, InAlphabet c) ∧ content.length % 4 ≠ 1

/-- No '=', or those that complete the last group of four. -/
def Completes (content : Bytes) (pads : ℕ) : Prop := pads < 4 ∧ (pads ≠ 0 → (content.length + pads) % 4 = 0)

/-- A text of the language is accepted and its bytes are returned, others are refused; and no more than `dst_len` bytes
are written. -/
structure Decodes (text : Bytes) (dstLen : ℕ) : Prop where
  iff : ∀ out, xBase64Decode text dstLen = some out ↔
    ∃ content pads, Padded text content pads ∧ Completes content pads ∧ out = denoted (content.map value)
  bound : ∀ out, xBase64Decode text dstLen = some out → out.length ≤ dstLen

def urlSafe (c : UInt8) : UInt8 := if c = 43 then 45 else if c = 47 then 95 else c

/-- What is encoded is decoded again: with or without the '=', in either alphabet, and where there is more room. -/
structure RoundTrips (src : Bytes) : Prop where
  decodes : ∀ k, ∃ text, xBase64Encode src (encodeMaxLen src.length + k) = some text ∧
    text.length < encodeMaxLen src.length ∧ ∀ f ∈ [id, urlSafe], ∀ g ∈ [id, filter (· ≠ padChar)], ∀ k,
      xBase64Decode (g (text.map f)) (decodeMaxLen (g (text.map f)).length + k) = some src

/-- One or two '=' behind characters that they do not complete. -/
def Mispadded (text : Bytes) : Prop :=
  ∃ content pads, Padded text content pads ∧ 0 < pads ∧ pads ≤ 2 ∧ (content.length + pads) % 4 ≠ 0

/-! ### The alphabets -/

instance (c : UInt8) : Decidable (InAlphabet c) := inferInstanceAs (Decidable (_ ∨ _))

/-- The 64 characters, the two others of the URL-safe alphabet, and `base64_val` of each. -/
theorem tables : kAlphabet.length = 64 ∧ bytes "-_" = [45, 95] ∧
    (∀ v < 64, base64Val (sym v) = some v ∧ base64Val (urlSafe (sym v)) = some v) ∧
      ∀ n < 256, ∀ v ∈ base64Val (UInt8.ofNat n), v < 64 ∧ sym v = UInt8.ofNat n ∨ UInt8.ofNat n ∈ bytes "-_" := by
  decide +kernel

theorem sym_mem {v : ℕ} (hv : v < 64) : sym v ∈ kAlphabet := by
  rw [sym, getD_eq_getElem?_getD, getElem?_eq_getElem (tables.1 ▸ hv)]
  exact getElem_mem _

theorem inAlphabet_of_val {c : UInt8} {v : ℕ} (h : base64Val c = some v) : InAlphabet c := by
  have hc := tables.2.2.2 c.toNat c.toNat_lt
  rw [UInt8.ofNat_toNat] at hc
  rcases hc v h with ⟨hv, rfl⟩ | hurl
  · exact .inl (sym_mem hv)
  · exact .inr hurl

theorem base64Val_of_mem {c : UInt8} (hc : InAlphabet c) : base64Val c = some (value c) := by
  unfold value
  split_ifs with hurl
  · rw [tables.2.1] at hurl ⊢
    rcases hurl with _ | ⟨_, _ | ⟨_, h⟩⟩
    · rfl
    · rfl
    · cases h
  · have hi := idxOf_lt_length_iff.2 (hc.resolve_right hurl)
    have hv := (tables.2.2.1 _ (tables.1 ▸ hi)).1
    rwa [sym, getD_eq_getElem?_getD, getElem?_eq_getElem hi, Option.getD_some, getElem_idxOf] at hv

theorem base64Val_eq (c : UInt8) : base64Val c = if InAlphabet c then some (value c) else none := by
  split_ifs with hc
  · exact base64Val_of_mem hc
  · cases hv : base64Val c with
    | none => rfl
    | some v => exact absurd (inAlphabet_of_val hv) hc

theorem base64Val_eq_none {c : UInt8} : base64Val c = none ↔ ¬InAlphabet c := by
  rw [base64Val_eq]
  split_ifs with h <;> simp [h]

theorem val_eq {c : UInt8} (h : InAlphabet c) : val c = value c := by
  rw [val, base64Val_eq, if_pos h]
  rfl

theorem value_of_val {c : UInt8} {v : ℕ} (h : base64Val c = some v) : InAlphabet c ∧ value c = v :=
  ⟨inAlphabet_of_val h, Option.some.inj ((base64Val_of_mem (inAlphabet_of_val h)).symm.trans h)⟩

theorem value_sym (v : ℕ) (hv : v < 64) : InAlphabet (sym v) ∧ sym v ≠ padChar ∧ urlSafe (sym v) ≠ padChar ∧
    value (sym v) = v ∧ InAlphabet (urlSafe (sym v)) ∧ value (urlSafe (sym v)) = v := by
  obtain ⟨h1, h2⟩ := tables.2.2.1 v hv
  have hpad {c : UInt8} (h : base64Val c = some v) : c ≠ padChar := by
    rintro rfl
    exact nomatch h
  exact ⟨(value_of_val h1).1, hpad h1, hpad h2, (value_of_val h1).2, value_of_val h2⟩

theorem not_inAlphabet_padChar : ¬InAlphabet padChar := base64Val_eq_none.1 rfl

theorem value_lt {c : UInt8} (h : InAlphabet c) : value c < 64 := by
  unfold value
  split_ifs with hurl
  · have hlt := idxOf_lt_length_iff.2 hurl
    rw [tables.2.1, length_cons, length_singleton] at hlt
    rw [tables.2.1]
    omega
  · have hlt := idxOf_lt_length_iff.2 (h.resolve_right hurl)
    rwa [tables.1] at hlt

/-! ### The decoder -/

theorem scan_pads (padCount k : ℕ) : scan true padCount (replicate k padChar) = some (padCount + k) := by
  induction k generalizing padCount with
  | zero => rfl
  | succ k ih =>
    rw [replicate_succ, scan, if_pos rfl, ih]
    congr 1
    omega

theorem scan_content {content : Bytes} (h : ∀ c ∈ content, InAlphabet c) (k : ℕ) :
    scan false 0 (content ++ replicate k padChar) = some k := by
  induction content with
  | nil =>
    cases k with
    | zero => rfl
    | succ k => rw [nil_append, replicate_succ, scan, if_pos rfl, scan_pads, Nat.add_comm]
  | cons c content ih =>
    have hc := h c mem_cons_self
    rw [cons_append, scan, if_neg (by rintro rfl; exact not_inAlphabet_padChar hc), if_neg (by decide),
      if_neg (fun heq => base64Val_eq_none.1 heq hc)]
    exact ih fun x hx => h x (mem_cons_of_mem _ hx)

theorem scan_true {src : Bytes} {padCount n : ℕ} (h : scan true padCount src = some n) :
    src = replicate (n - padCount) padChar ∧ padCount ≤ n := by
  induction src generalizing padCount with
  | nil =>
    cases h
    exact ⟨by rw [Nat.sub_self]; rfl, le_rfl⟩
  | cons c src ih =>
    rw [scan] at h
    split_ifs at h with hc hpad
    · obtain ⟨hsrc, hle⟩ := ih h
      refine ⟨?_, by omega⟩
      rw [show n - padCount = n - (padCount + 1) + 1 by omega, replicate_succ, ← hsrc, hc]
    · exact absurd rfl hpad

theorem scan_false {src : Bytes} {n : ℕ} (h : scan false 0 src = some n) :
    ∃ content, src = content ++ replicate n padChar ∧ ∀ c ∈ content, InAlphabet c := by
  induction src with
  | nil =>
    cases h
    exact ⟨[], rfl, by simp⟩
  | cons c src ih =>
    rw [scan] at h
    split_ifs at h with hc hgot hval
    · obtain ⟨hsrc, hle⟩ := scan_true h
      refine ⟨[], ?_, by simp⟩
      rw [nil_append, show n = n - (0 + 1) + 1 by omega, replicate_succ, ← hsrc, hc]
    · obtain ⟨content, rfl, hin⟩ := ih h
      refine ⟨c :: content, rfl, fun x hx => ?_⟩
      rcases mem_cons.1 hx with rfl | hx
      · exact Classical.not_not.1 fun hno => hval (base64Val_eq_none.2 hno)
      · exact hin x hx

theorem and_eq (n : ℕ) : n &&& 3 = n % 4 ∧ n &&& 15 = n % 16 ∧ n &&& 63 = n % 64 :=
  ⟨Nat.and_two_pow_sub_one_eq_mod n 2, Nat.and_two_pow_sub_one_eq_mod n 4, Nat.and_two_pow_sub_one_eq_mod n 6⟩

theorem shiftLeft_or (v k : ℕ) {w : ℕ} (hw : w < 2 ^ k) : v <<< k ||| w = v * 2 ^ k + w := by
  rw [← Nat.shiftLeft_add_eq_or_of_lt hw, Nat.shiftLeft_eq]

theorem or_sextets (v : ℕ) {w : ℕ} (hw : w < 64) : v <<< 2 ||| w >>> 4 = v * 4 + w / 16 ∧
    (v &&& 15) <<< 4 ||| w >>> 2 = v % 16 * 16 + w / 4 ∧ (v &&& 3) <<< 6 ||| w = v % 4 * 64 + w := by
  rw [(and_eq v).1, (and_eq v).2.1, Nat.shiftRight_eq_div_pow, Nat.shiftRight_eq_div_pow]
  exact ⟨shiftLeft_or _ 2 (by omega), shiftLeft_or _ 4 (by omega), shiftLeft_or _ 6 hw⟩

theorem group_eq {v0 v1 v2 v3 : ℕ} (h1 : v1 < 64) (h2 : v2 < 64) (h3 : v3 < 64) {need out n : ℕ}
    (h : need = out + n + 1) : group need out v0 v1 v2 v3 =
      UInt8.ofNat (v0 * 4 + v1 / 16) :: ([UInt8.ofNat (v1 % 16 * 16 + v2 / 4), UInt8.ofNat (v2 % 4 * 64 + v3)]).take n := by
  simp only [group, (or_sextets _ h1).1, (or_sextets _ h2).2.1, (or_sextets _ h3).2.2]
  match n with
  | 0 => simp [show ¬out + 1 < need by omega]
  | 1 => simp [show out + 1 < need by omega, show ¬out + 2 < need by omega]
  | n + 2 => simp [show out + 1 < need by omega, show out + 2 < need by omega]

theorem decode_eq (content : Bytes) (h : ∀ c ∈ content, InAlphabet c) (hlen : content.length % 4 ≠ 1) (need out : ℕ)
    (hneed : need = out + content.length * 3 / 4) : decode need out content = denoted (content.map value) := by
  have hlt : ∀ c ∈ content, value c < 64 ∧ val c = value c := fun c hc => ⟨value_lt (h c hc), val_eq (h c hc)⟩
  clear h
  induction out, content using decode.induct need with
  | case1 out c0 c1 c2 c3 src dst ih =>
    simp only [mem_cons, forall_eq_or_imp] at hlt
    obtain ⟨⟨h0, e0⟩, ⟨h1, e1⟩, ⟨h2, e2⟩, ⟨h3, e3⟩, hsrc⟩ := hlt
    simp only [length_cons] at hlen hneed
    have hdst : dst = [UInt8.ofNat (value c0 * 4 + value c1 / 16), UInt8.ofNat (value c1 % 16 * 16 + value c2 / 4),
        UInt8.ofNat (value c2 % 4 * 64 + value c3)] := by
      change group _ _ (val c0) (val c1) (val c2) (val c3) = _
      rw [e0, e1, e2, e3, group_eq h1 h2 h3 (n := src.length * 3 / 4 + 2) (by omega), take_of_length_le (by simp)]
    have hdlen : dst.length = 3 := congrArg length hdst
    rw [decode, ih (by omega) (by omega) hsrc]
    change dst ++ _ = _
    rw [hdst, map_cons, map_cons, map_cons, map_cons, denoted,
      show (((value c0 * 64 + value c1) * 64 + value c2) * 64 + value c3) / 65536 = value c0 * 4 + value c1 / 16 by omega,
      show (((value c0 * 64 + value c1) * 64 + value c2) * 64 + value c3) / 256 % 256 = value c1 % 16 * 16 + value c2 / 4 by
        omega,
      show (((value c0 * 64 + value c1) * 64 + value c2) * 64 + value c3) % 256 = value c2 % 4 * 64 + value c3 by omega]
    rfl
  | case2 out c0 c1 c2 =>
    simp only [mem_cons, forall_eq_or_imp] at hlt
    obtain ⟨⟨h0, e0⟩, ⟨h1, e1⟩, ⟨h2, e2⟩, -⟩ := hlt
    rw [decode, e0, e1, e2, group_eq h1 h2 (by decide) (n := 1) (by simpa using hneed), map_cons, map_cons, map_cons, map_nil, denoted,
      show ((value c0 * 64 + value c1) * 64 + value c2) / 1024 = value c0 * 4 + value c1 / 16 by omega,
      show ((value c0 * 64 + value c1) * 64 + value c2) / 4 % 256 = value c1 % 16 * 16 + value c2 / 4 by omega]
    rfl
  | case3 out c0 c1 =>
    simp only [mem_cons, forall_eq_or_imp] at hlt
    obtain ⟨⟨h0, e0⟩, ⟨h1, e1⟩, -⟩ := hlt
    rw [decode, e0, e1, group_eq h1 (by decide) (by decide) (n := 0) (by simpa using hneed), map_cons, map_cons, map_nil, denoted,
      show (value c0 * 64 + value c1) / 16 = value c0 * 4 + value c1 / 16 by omega]
    rfl
  | case4 out c0 => exact absurd rfl hlen
  | case5 => rfl

theorem length_denoted (vs : List ℕ) : (denoted vs).length = vs.length * 3 / 4 := by
  induction vs using denoted.induct with
  | case1 v0 v1 v2 v3 vs ih =>
    simp only [denoted, length_cons, ih]
    omega
  | case5 => rfl
  | _ => simp [denoted]

/-- **What the decoder accepts**, and what it returns. -/
theorem xBase64Decode_eq_some {text : Bytes} {dstLen : ℕ} {out : Bytes} : xBase64Decode text dstLen = some out ↔
    ∃ content pads, Padded text content pads ∧ pads ≤ 2 ∧ content.length * 3 / 4 ≤ dstLen ∧
      out = denoted (content.map value) := by
  have hpadded : ∀ {content : Bytes} {pads : ℕ}, Padded text content pads → pads ≤ 2 →
      xBase64Decode text dstLen = if dstLen < content.length * 3 / 4 then none else some (denoted (content.map value)) := by
    rintro content pads ⟨rfl, hin, hlen⟩ hle
    rw [xBase64Decode, scan_content hin]
    by_cases hnil : (content ++ replicate pads padChar).length = 0
    · obtain ⟨rfl, -⟩ := append_eq_nil_iff.1 (length_eq_zero_iff.1 hnil)
      rw [if_pos hnil]
      rfl
    · have hsub : (content ++ replicate pads padChar).length - pads = content.length := by simp
      simp only [hsub, take_left]
      rw [if_neg hnil, if_neg (by omega), if_neg hlen, decode_eq content hin hlen _ 0 (by omega)]
  constructor
  · intro h
    cases hscan : scan false 0 text with
    | none =>
      rw [xBase64Decode, hscan] at h
      split_ifs at h with hnil
      rw [length_eq_zero_iff.1 hnil] at hscan
      cases hscan
    | some n =>
      obtain ⟨content, htext, hin⟩ := scan_false hscan
      have hsub : text.length - n = content.length := by
        rw [htext]
        simp
      by_cases hnil : text.length = 0
      · rw [xBase64Decode, if_pos hnil] at h
        obtain ⟨rfl, hn⟩ := append_eq_nil_iff.1 (htext.symm.trans (length_eq_zero_iff.1 hnil))
        exact ⟨[], n, ⟨htext, hin, by decide⟩, by rw [show n = 0 by simpa using congrArg length hn]; decide, Nat.zero_le _, (Option.some.inj h).symm⟩
      · have h' := h
        rw [xBase64Decode, hscan, if_neg hnil] at h'
        simp only [hsub] at h'
        split_ifs at h' with h1 h2 h3
        have hp : Padded text content n := ⟨htext, hin, h2⟩
        rw [hpadded hp (by omega), if_neg h3] at h
        exact ⟨content, n, hp, by omega, by omega, (Option.some.inj h).symm⟩
  · rintro ⟨content, pads, hp, hle, hroom, rfl⟩
    rw [hpadded hp hle, if_neg (by omega)]

theorem Padded.inj {text content content' : Bytes} {pads pads' : ℕ} (h : Padded text content pads)
    (h' : Padded text content' pads') : content = content' ∧ pads = pads' := by
  obtain ⟨rfl, hin, -⟩ := h
  obtain ⟨heq, hin', -⟩ := h'
  have hscan := scan_content hin pads
  rw [heq, scan_content hin' pads'] at hscan
  obtain rfl := Option.some.inj hscan
  exact ⟨append_cancel_right heq, rfl⟩

/-! ### Round trips -/

theorem or_bytes (a b : UInt8) : (a.toNat &&& 3) <<< 4 ||| (b.toNat >>> 4 &&& 15) = a.toNat % 4 * 16 + b.toNat / 16 ∧
    (a.toNat &&& 15) <<< 2 ||| (b.toNat >>> 6 &&& 3) = a.toNat % 16 * 4 + b.toNat / 64 := by
  have hb := b.toNat_lt
  rw [(and_eq _).1, (and_eq _).2.1, (and_eq _).2.1, (and_eq _).1, Nat.shiftRight_eq_div_pow, Nat.shiftRight_eq_div_pow,
    Nat.mod_eq_of_lt (a := b.toNat / 2 ^ 4) (by omega), Nat.mod_eq_of_lt (a := b.toNat / 2 ^ 6) (by omega)]
  exact ⟨shiftLeft_or _ 4 (by omega), shiftLeft_or _ 2 (by omega)⟩

/-- **What is encoded** denotes what was given. -/
theorem encode_eq (src : Bytes) : ∃ vs pads, encode src = vs.map sym ++ replicate pads padChar ∧ (∀ v ∈ vs, v < 64) ∧
    denoted vs = src ∧ vs.length % 4 ≠ 1 ∧ pads ≤ 2 ∧ vs.length + pads = (src.length + 2) / 3 * 4 := by
  induction src using encode.induct with
  | case1 a b c src ih =>
    obtain ⟨vs, pads, henc, hlt, hden, hlen, hpads, hsum⟩ := ih
    have ha := a.toNat_lt
    have hb := b.toNat_lt
    have hc := c.toNat_lt
    refine ⟨a.toNat / 4 :: (a.toNat % 4 * 16 + b.toNat / 16) :: (b.toNat % 16 * 4 + c.toNat / 64) :: c.toNat % 64 :: vs,
      pads, ?_, ?_, ?_, ?_, hpads, ?_⟩
    · rw [encode, henc, (or_bytes a b).1, (or_bytes b c).2, (and_eq _).2.2, Nat.shiftRight_eq_div_pow]
      rfl
    · simp only [mem_cons, forall_eq_or_imp]
      exact ⟨by omega, by omega, by omega, by omega, hlt⟩
    · rw [denoted, hden]
      congr
      all_goals
        refine (congrArg UInt8.ofNat ?_).trans UInt8.ofNat_toNat
        omega
    all_goals
      simp only [length_cons]
      omega
  | case2 a b =>
    have ha := a.toNat_lt
    have hb := b.toNat_lt
    refine ⟨[a.toNat / 4, a.toNat % 4 * 16 + b.toNat / 16, b.toNat % 16 * 4], 1, ?_, ?_, ?_, by simp, by decide, by simp⟩
    · rw [encode, (or_bytes a b).1, (and_eq _).2.1, Nat.shiftRight_eq_div_pow, Nat.shiftLeft_eq]
      rfl
    · simp only [mem_cons, forall_eq_or_imp, not_mem_nil, false_imp_iff, implies_true, and_true]
      omega
    · rw [denoted]
      congr
      all_goals
        refine (congrArg UInt8.ofNat ?_).trans UInt8.ofNat_toNat
        omega
  | case3 a =>
    have ha := a.toNat_lt
    refine ⟨[a.toNat / 4, a.toNat % 4 * 16], 2, ?_, ?_, ?_, by simp, by decide, by simp⟩
    · rw [encode, (and_eq _).1, Nat.shiftRight_eq_div_pow, Nat.shiftLeft_eq]
      rfl
    · simp only [mem_cons, forall_eq_or_imp, not_mem_nil, false_imp_iff, implies_true, and_true]
      omega
    · rw [denoted]
      congr
      refine (congrArg UInt8.ofNat ?_).trans UInt8.ofNat_toNat
      omega
  | case4 => exact ⟨[], 0, rfl, by simp, rfl, by decide, by decide, rfl⟩

/-- **Round trips.** -/
theorem roundTrips (src : Bytes) : RoundTrips src := by
  obtain ⟨vs, pads, henc, hlt, hden, hlen, hpads, hsum⟩ := encode_eq src
  refine ⟨fun k => ⟨encode src, if_neg (by rw [encodeMaxLen]; omega), ?_, fun f hf g hg k => ?_⟩⟩
  · rw [henc, encodeMaxLen]
    simp
    omega
  have hsym : ∀ v ∈ vs, InAlphabet (f (sym v)) ∧ f (sym v) ≠ padChar ∧ value (f (sym v)) = v := fun v hv => by
    obtain ⟨h1, h2, h3, h4, h5, h6⟩ := value_sym v (hlt v hv)
    simp only [mem_cons, not_mem_nil, or_false] at hf
    rcases hf with rfl | rfl
    · exact ⟨h1, h2, h4⟩
    · exact ⟨h5, h3, h6⟩
  have hpad : f padChar = padChar := by
    simp only [mem_cons, not_mem_nil, or_false] at hf
    rcases hf with rfl | rfl <;> rfl
  have htext : ∃ pads' ≤ 2, g ((encode src).map f) = vs.map (fun v => f (sym v)) ++ replicate pads' padChar := by
    rw [henc, map_append, map_replicate, hpad, map_map]
    simp only [mem_cons, not_mem_nil, or_false] at hg
    rcases hg with rfl | rfl
    · exact ⟨pads, hpads, rfl⟩
    · refine ⟨0, by decide, ?_⟩
      rw [filter_append, filter_eq_self.2, filter_eq_nil_iff.2]
      · rfl
      · simp
      · simp only [mem_map, decide_eq_true_eq]
        rintro _ ⟨v, hv, rfl⟩
        exact (hsym v hv).2.1
  obtain ⟨pads', hle, htext⟩ := htext
  refine xBase64Decode_eq_some.2 ⟨vs.map (fun v => f (sym v)), pads', ⟨htext, ?_, by rwa [length_map]⟩, hle, ?_, ?_⟩
  · simp only [mem_map]
    rintro _ ⟨v, hv, rfl⟩
    exact (hsym v hv).1
  · rw [htext, decodeMaxLen]
    simp only [length_append, length_map]
    omega
  · rw [map_map, ← hden]
    congr 1
    exact ((map_congr_left fun v hv => (hsym v hv).2.2).trans (map_id' vs)).symm

/-- **Base64 is exact but for the number of '='.** -/
theorem base64_exact (src text : Bytes) (k : ℕ) : RoundTrips src ∧
    (Decodes text (decodeMaxLen text.length + k) ↔ ¬Mispadded text) := by
  refine ⟨roundTrips src, ?_, fun hmis => ⟨fun out => ?_, fun out h => ?_⟩⟩
  · rintro h ⟨content, pads, hp, hpos, hle, hmod⟩
    have hroom : content.length * 3 / 4 ≤ decodeMaxLen text.length + k := by
      rw [hp.1, decodeMaxLen, length_append]
      omega
    obtain ⟨content', pads', hp', hc, -⟩ := (h.iff _).1 (xBase64Decode_eq_some.2 ⟨content, pads, hp, hle, hroom, rfl⟩)
    obtain ⟨rfl, rfl⟩ := hp.inj hp'
    exact hmod (hc.2 hpos.ne')
  · rw [xBase64Decode_eq_some]
    constructor
    · rintro ⟨content, pads, hp, hle, -, rfl⟩
      refine ⟨content, pads, hp, ⟨by omega, fun hne => ?_⟩, rfl⟩
      by_contra hmod
      exact hmis ⟨content, pads, hp, Nat.pos_of_ne_zero hne, hle, hmod⟩
    · rintro ⟨content, pads, hp, hc, rfl⟩
      have h1 := hp.2.2
      refine ⟨content, pads, hp, ?_, ?_, rfl⟩
      · by_cases hz : pads = 0
        · omega
        · have h2 := hc.1
          have h3 := hc.2 hz
          omega
      · rw [hp.1, decodeMaxLen, length_append]
        omega
  · obtain ⟨content, pads, -, -, hroom, rfl⟩ := xBase64Decode_eq_some.1 h
    rw [length_denoted, length_map]
    exact hroom

theorem not_decodes_surplus : ¬∀ text k, Decodes text (decodeMaxLen text.length + k) := by
  intro hall
  have hdec : xBase64Decode (bytes "YWJj=") (decodeMaxLen (bytes "YWJj=").length + 0) = some (bytes "abc") := by
    decide +kernel
  obtain ⟨content, pads, ⟨htext, hin, hlen⟩, hc, hout⟩ := ((hall _ 0).iff _).1 hdec
  have hscan := scan_content hin pads
  rw [← htext] at hscan
  obtain rfl : 1 = pads := Option.some.inj ((show scan false 0 (bytes "YWJj=") = some 1 by decide +kernel).symm.trans hscan)
  have hlen5 := congrArg length htext
  rw [length_append, length_replicate, show (bytes "YWJj=").length = 5 by decide +kernel] at hlen5
  have := hc.2 (by decide)
  omega

end Libx.Base.Base64
