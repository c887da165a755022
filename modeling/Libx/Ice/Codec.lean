import Libx.Core.Unfold
import Libx.Ice.Writer

/-!
# Libx.Ice.Codec — STUN decoding undoes encoding

The readers of stun_attr.c take back what its writers put down, as long as the attributes fit the
16-bit length fields; on any other bytes the iterator stays within the message and ends.
-/

namespace Libx.Ice

open Libx.Core (Unfolds)
open Libx.Agent (Bytes CStr cstr)
open List

/-! ### Exclusive or -/

theorem ofNat_xor (m n : ℕ) : UInt8.ofNat (m ^^^ n) = UInt8.ofNat m ^^^ UInt8.ofNat n := by
  apply UInt8.toNat_inj.mp
  rw [UInt8.toNat_xor, UInt8.toNat_ofNat', UInt8.toNat_ofNat', UInt8.toNat_ofNat', Nat.xor_mod_two_pow]

theorem xor_div (m n k : ℕ) : (m ^^^ n) / 2 ^ k = m / 2 ^ k ^^^ n / 2 ^ k := by
  rw [← Nat.shiftRight_eq_div_pow, Nat.shiftRight_xor_distrib, Nat.shiftRight_eq_div_pow, Nat.shiftRight_eq_div_pow]

theorem zipWith_xor_cancel (b k : Bytes) (h : b.length ≤ k.length) :
    List.zipWith (· ^^^ ·) (List.zipWith (· ^^^ ·) b k) k = b := by
  induction b generalizing k with
  | nil => rfl
  | cons c b ih =>
    cases k with
    | nil => simp at h
    | cons d k =>
      rw [zipWith_cons_cons, zipWith_cons_cons, ih k (by simpa using h)]
      congr 1
      apply UInt8.toNat_inj.mp
      rw [UInt8.toNat_xor, UInt8.toNat_xor, Nat.xor_assoc, Nat.xor_self, Nat.xor_zero]

theorem writeU32_xor (ip : ℕ) :
    writeU32 (ip ^^^ 0x2112A442) = List.zipWith (· ^^^ ·) (writeU32 ip) magicCookie := by
  have h (k : ℕ) : (ip ^^^ 0x2112A442) / 2 ^ k = ip / 2 ^ k ^^^ 0x2112A442 / 2 ^ k := xor_div ip _ k
  have h8 := h 8
  have h16 := h 16
  have h24 : (ip ^^^ 0x2112A442) / 65536 / 256 = ip / 65536 / 256 ^^^ 0x21 := by
    rw [Nat.div_div_eq_div_mul, Nat.div_div_eq_div_mul]
    exact h 24
  simp only [writeU32, writeU16, magicCookie, cons_append, nil_append, zipWith_cons_cons,
    zipWith_nil_left]
  rw [h24, show (65536 : ℕ) = 2 ^ 16 from rfl, show (256 : ℕ) = 2 ^ 8 from rfl, h8, h16, ofNat_xor, ofNat_xor,
    ofNat_xor, ofNat_xor]
  rfl

/-! ### The iterator -/

theorem le_align4 (n : ℕ) : n ≤ align4 n := by
  unfold align4
  omega

theorem align4_le (n : ℕ) : align4 n ≤ n + 3 := by
  unfold align4
  omega

@[simp] theorem length_tlv (t : ℕ) (v : Bytes) : (tlv t v).length = 4 + align4 v.length := by
  have h := le_align4 v.length
  simp only [tlv, length_append, length_writeU16, length_replicate]
  omega

theorem unfolds_iterAttrs (n : ℕ) (data : Bytes) (pos : ℕ) (h : data.length ≤ pos + n) :
    Unfolds Iter.next ⟨data, pos⟩ (iterAttrs n pos (data.drop pos)) := by
  induction n generalizing pos with
  | zero =>
    apply Unfolds.done
    rw [Iter.next, if_pos (by dsimp only; omega)]
  | succ n ih =>
    rw [iterAttrs, length_drop]
    by_cases h4 : data.length < pos + 4
    · rw [if_pos (by omega)]
      apply Unfolds.done
      rw [Iter.next, if_pos h4]
    · rw [if_neg (by omega)]
      dsimp only
      by_cases hl : data.length < pos + 4 + readBE (((data.drop pos).drop 2).take 2)
      · rw [if_pos (by omega)]
        apply Unfolds.done
        rw [Iter.next, if_neg h4, if_pos hl]
      · rw [if_neg (by omega)]
        refine Unfolds.more (by rw [Iter.next, if_neg h4, if_neg hl]) ?_
        have hrest (k : ℕ) : (data.drop pos).drop k = data.drop (pos + k) := drop_drop
        rw [hrest (4 + _)]
        exact ih (pos + (4 + align4 (readBE (((data.drop pos).drop 2).take 2)))) (by omega)

theorem within_of_next {it it' : Iter} {a : Attr} (h : it.next = some (a, it')) :
    a.offset + 4 + a.value.length ≤ it.data.length ∧ a.value = (it.data.drop (a.offset + 4)).take a.value.length ∧
      it'.data = it.data := by
  rw [Iter.next] at h
  by_cases h4 : it.data.length < it.pos + 4
  · rw [if_pos h4] at h
    cases h
  · rw [if_neg h4] at h
    dsimp only at h
    split_ifs at h with hl
    simp only [Option.some.injEq, Prod.mk.injEq] at h
    obtain ⟨rfl, rfl⟩ := h
    have hlen : (((it.data.drop it.pos).drop 4).take (readBE (((it.data.drop it.pos).drop 2).take 2))).length =
        readBE (((it.data.drop it.pos).drop 2).take 2) := by
      rw [length_take, length_drop, length_drop]
      omega
    refine ⟨by dsimp only; omega, ?_, rfl⟩
    dsimp only
    rw [hlen]
    exact congrArg _ drop_drop

variable {t n pos : ℕ} {v : Bytes}

theorem iterAttrs_tlv {rest : Bytes} (ht : t < 65536) (hv : v.length < 65536) :
    iterAttrs (n + 1) pos (tlv t v ++ rest) = ⟨t, v, pos⟩ :: iterAttrs n (pos + (4 + align4 v.length)) rest := by
  have hlen : readBE (writeU16 v.length) = v.length := by rw [readBE_writeU16, Nat.mod_eq_of_lt hv]
  have htype : readBE (writeU16 t) = t := by rw [readBE_writeU16, Nat.mod_eq_of_lt ht]
  have h2 : (((tlv t v ++ rest).drop 2).take 2) = writeU16 v.length := rfl
  have h0 : (tlv t v ++ rest).take 2 = writeU16 t := rfl
  have h4 : (tlv t v ++ rest).drop 4 = v ++ (List.replicate (align4 v.length - v.length) 0 ++ rest) := by
    show (v ++ List.replicate (align4 v.length - v.length) 0) ++ rest = _
    rw [append_assoc]
  have hle := le_align4 v.length
  rw [iterAttrs, if_neg (by rw [length_append, length_tlv]; omega)]
  dsimp only
  rw [h2, hlen, if_neg (by rw [length_append, length_tlv]; omega), h0, htype, h4, take_left']
  · congr 2
    rw [← length_tlv t v, drop_left']
    rfl
  · rfl

/-! ### What a call asks for -/

def Write.attrType : Write → ℕ
  | .xorMappedAddress _ => attrXorMappedAddress
  | .mappedAddress _ => attrMappedAddress
  | .xorPeerAddress _ => attrXorPeerAddress
  | .username .. => attrUsername
  | .realm _ => attrRealm
  | .nonce _ => attrNonce
  | .software _ => attrSoftware
  | .messageIntegrity _ => attrMessageIntegrity
  | .fingerprint => attrFingerprint
  | .priority _ => attrPriority
  | .useCandidate => attrUseCandidate
  | .iceControlling _ => attrIceControlling
  | .iceControlled _ => attrIceControlled
  | .lifetime _ => attrLifetime
  | .requestedTransport _ => attrRequestedTransport
  | .channelNumber _ => attrChannelNumber
  | .data _ => attrData
  | .errorCode .. => attrErrorCode

def Addr.size : Addr → ℕ
  | .v4 .. => 8
  | .v6 .. => 20
  | .unspec => 0

def Write.size : Write → ℕ
  | .xorMappedAddress a => a.1.size
  | .mappedAddress a => a.1.size
  | .xorPeerAddress a => a.1.size
  | .username remote loc => remote.bytes.length + 1 + loc.bytes.length
  | .realm s => s.bytes.length
  | .nonce s => s.bytes.length
  | .software s => s.bytes.length
  | .messageIntegrity _ => 20
  | .fingerprint => 4
  | .priority _ => 4
  | .useCandidate => 0
  | .iceControlling _ => 8
  | .iceControlled _ => 8
  | .lifetime _ => 4
  | .requestedTransport _ => 4
  | .channelNumber _ => 4
  | .data b => b.length
  | .errorCode _ reason => 4 + ((reason.map CStr.bytes).getD []).length

/-- The room that attributes take: headers, values and padding. -/
def room (cs : List Write) : ℕ := (cs.map (fun c => 4 + align4 c.size)).sum

section Hash

variable (hmac : Bytes → Bytes → Digest) (crc : Bytes → UInt32)

/-- The value a call asks to be written behind what `w` holds. -/
def Write.value (w : Writer) : Write → Bytes
  | .xorMappedAddress a => (addressValue true w.txnId.1 a.1).getD []
  | .mappedAddress a => (addressValue false w.txnId.1 a.1).getD []
  | .xorPeerAddress a => (addressValue true w.txnId.1 a.1).getD []
  | .username remote loc => remote.bytes ++ 58 :: loc.bytes
  | .realm s => s.bytes
  | .nonce s => s.bytes
  | .software s => s.bytes
  | .messageIntegrity key => (hmac key (signedBytes w 24)).1
  | .fingerprint => writeU32 ((crc (signedBytes w 8)).toNat ^^^ fingerprintXor)
  | .priority n => writeU32 n.toNat
  | .useCandidate => []
  | .iceControlling t => writeU64 t.toNat
  | .iceControlled t => writeU64 t.toNat
  | .lifetime n => writeU32 n.toNat
  | .requestedTransport n => writeU32 n.toNat
  | .channelNumber n => writeU16 n.toNat ++ writeU16 0
  | .data b => b
  | .errorCode code reason =>
    0 :: 0 :: UInt8.ofNat (code / 100) :: UInt8.ofNat (code % 100) :: (reason.map CStr.bytes).getD []

/-- The attributes that a sequence of calls asks for. -/
def Writer.asked (w : Writer) : List Write → List (ℕ × Bytes)
  | [] => []
  | c :: cs => (c.attrType, c.value hmac crc w) ::
    match w.write hmac crc c with
    | none => []
    | some w => w.asked cs

end Hash

variable {hmac : Bytes → Bytes → Digest} {crc : Bytes → UInt32}

/-- What is left of a value when its length is cut to 16 bits. -/
def cut (v : Bytes) : Bytes := v.take (v.length % 65536)

theorem cut_of_short (h : v.length < 65536) : cut v = v := by
  rw [cut, Nat.mod_eq_of_lt h, take_length]

theorem length_cut (v : Bytes) : (cut v).length = v.length % 65536 := by
  rw [cut, length_take]
  exact Nat.min_eq_left (Nat.mod_le _ _)

variable {w w' : Writer}

theorem attrWriteRaw_eq_some (h : attrWriteRaw w t v v.length = some w') :
    w' = { w with buf := w.buf ++ tlv t (cut v) } ∧ w'.buf.length ≤ w.cap := by
  unfold attrWriteRaw at h
  dsimp only at h
  split_ifs at h with hcap
  obtain rfl := Option.some.inj h
  refine ⟨rfl, ?_⟩
  have hlen := length_cut v
  rw [cut] at hlen
  simp only [length_append, length_tlv, hlen]
  omega

theorem length_addressValue {xor : Bool} {id : Bytes} {a : Addr} (hid : id.length = 12)
    (h : addressValue xor id a = some v) : v.length = a.size := by
  cases a with
  | v4 ip port =>
    obtain rfl := Option.some.inj h
    rfl
  | v6 ip port =>
    obtain rfl := Option.some.inj h
    cases xor
    · rfl
    · simp [magicCookie, hid, Addr.size]
  | unspec => cases h

theorem encodeAddress_eq_some {xor : Bool} {a : Addr}
    (h : encodeAddress w t a xor w.txnId.1 = some w') :
    (w' = { w with buf := w.buf ++ tlv t (cut ((addressValue xor w.txnId.1 a).getD [])) } ∧
      w'.buf.length ≤ w.cap) ∧ ((addressValue xor w.txnId.1 a).getD []).length = a.size := by
  unfold encodeAddress at h
  cases hv : addressValue xor w.txnId.1 a with
  | none =>
    rw [hv] at h
    cases h
  | some v =>
    rw [hv] at h
    exact ⟨attrWriteRaw_eq_some h, length_addressValue w.txnId.2 hv⟩

/-- A call that returns `xErrno_Ok` appends what it was asked for, cut to the width of the length field, and
stays in the buffer. -/
theorem write_eq_some {c : Write} (h : w.write hmac crc c = some w') :
    (w' = { w with buf := w.buf ++ tlv c.attrType (cut (c.value hmac crc w)) } ∧ w'.buf.length ≤ w.cap) ∧
      (c.value hmac crc w).length = c.size := by
  cases c with
  | xorMappedAddress a | mappedAddress a | xorPeerAddress a => exact encodeAddress_eq_some h
  | username remote loc =>
    unfold Writer.write at h
    dsimp only at h
    split_ifs at h
    refine ⟨attrWriteRaw_eq_some h, ?_⟩
    show (remote.bytes ++ 58 :: loc.bytes).length = remote.bytes.length + 1 + loc.bytes.length
    simp only [length_append, length_cons]
    omega
  | messageIntegrity key =>
    have hlen : (Write.value hmac crc w (.messageIntegrity key)).length = 20 :=
      (hmac key (signedBytes w 24)).2
    refine ⟨attrWriteRaw_eq_some ?_, hlen⟩
    rw [hlen]
    exact h
  | errorCode code reason =>
    unfold Writer.write at h
    dsimp only at h
    split_ifs at h
    have hlen : (Write.value hmac crc w (.errorCode code reason)).length =
        4 + ((reason.map CStr.bytes).getD []).length := by
      show ((reason.map CStr.bytes).getD []).length + 1 + 1 + 1 + 1 = _
      omega
    refine ⟨attrWriteRaw_eq_some ?_, hlen⟩
    rw [hlen]
    exact h
  | _ => exact ⟨attrWriteRaw_eq_some h, rfl⟩

/-! ### Reading back one attribute -/

theorem xor_cancel {k : ℕ} : n ^^^ k ^^^ k = n := by
  rw [Nat.xor_assoc, Nat.xor_self, Nat.xor_zero]

theorem port_xor {port : ℕ} (h : port < 65536) : readBE (writeU16 (port ^^^ 0x2112)) ^^^ 0x2112 = port := by
  have hlt : port ^^^ 0x2112 < 65536 := Nat.xor_lt_two_pow (n := 16) h (by decide)
  rw [readBE_writeU16, Nat.mod_eq_of_lt hlt, xor_cancel]

theorem decodeXorAddress_value {id : Bytes} {a : Addr} (hid : id.length = 12) (ha : a.Fits)
    (h : addressValue true id a = some v) : decodeXorAddress id ⟨t, v, pos⟩ = some a := by
  cases a with
  | unspec => cases h
  | v4 ip port =>
    obtain rfl := Option.some.inj h
    have hport := port_xor ha.2
    have hip : readBE (List.zipWith (· ^^^ ·) (writeU32 (ip ^^^ 0x2112A442)) magicCookie) = ip := by
      rw [writeU32_xor, zipWith_xor_cancel (writeU32 ip) magicCookie (Nat.le_refl 4), readBE_writeU32, Nat.mod_eq_of_lt ha.1]
    show some (Addr.v4 (readBE (List.zipWith (· ^^^ ·) (writeU32 (ip ^^^ 0x2112A442)) magicCookie))
      (readBE (writeU16 (port ^^^ 0x2112)) ^^^ 0x2112)) = _
    rw [hport, hip]
  | v6 ip port =>
    obtain rfl := Option.some.inj h
    have hport := port_xor ha.2
    have hip : readBE (writeU64 (ip / 18446744073709551616) ++ writeU64 ip) = ip := by
      have hfit : ip < 340282366920938463463374607431768211456 := ha.1
      rw [readBE_append, readBE_writeU64, readBE_writeU64, length_writeU64]
      omega
    have hlen : (List.zipWith (· ^^^ ·) (writeU64 (ip / 18446744073709551616) ++ writeU64 ip)
        (magicCookie ++ id)).length = 16 := by
      simp [magicCookie, hid]
    have hkey : (writeU64 (ip / 18446744073709551616) ++ writeU64 ip).length ≤ (magicCookie ++ id).length := by
      simp [magicCookie, hid]
    rw [decodeXorAddress]
    dsimp only
    rw [if_neg, if_neg, if_pos, if_neg]
    · show some (Addr.v6 (readBE (List.zipWith (· ^^^ ·) (List.take 16 (List.zipWith (· ^^^ ·) _ (magicCookie ++ id)))
        (magicCookie ++ id))) (readBE (writeU16 (port ^^^ 0x2112)) ^^^ 0x2112)) = _
      rw [take_of_length_le (le_of_eq hlen), zipWith_xor_cancel _ _ hkey, hport, hip]
    · simp [hid, magicCookie]
    · rfl
    · show ¬ (2 : UInt8) = 1
      decide
    · simp [hid, magicCookie]

theorem decodeMappedAddress_value {id : Bytes} {a : Addr} (ha : a.Fits)
    (h : addressValue false id a = some v) : decodeMappedAddress ⟨t, v, pos⟩ = some a := by
  cases a with
  | unspec => cases h
  | v4 ip port =>
    obtain rfl := Option.some.inj h
    show some (Addr.v4 (readBE (writeU32 ip)) (readBE (writeU16 port))) = _
    rw [readBE_writeU32, readBE_writeU16, Nat.mod_eq_of_lt ha.1, Nat.mod_eq_of_lt ha.2]
  | v6 ip port =>
    obtain rfl := Option.some.inj h
    have hip : readBE (writeU64 (ip / 18446744073709551616) ++ writeU64 ip) = ip := by
      have hfit : ip < 340282366920938463463374607431768211456 := ha.1
      rw [readBE_append, readBE_writeU64, readBE_writeU64, length_writeU64]
      omega
    show some (Addr.v6 (readBE (writeU64 (ip / 18446744073709551616) ++ writeU64 ip)) (readBE (writeU16 port))) = _
    rw [hip, readBE_writeU16, Nat.mod_eq_of_lt ha.2]

theorem decodeErrorCode_value {code : ℕ} {reason : Bytes} (h : 300 ≤ code) (h' : code ≤ 699) :
    ∃ r, decodeErrorCode ⟨t, 0 :: 0 :: UInt8.ofNat (code / 100) :: UInt8.ofNat (code % 100) :: reason, pos⟩ =
      some (code, r) ∧ r.getD [] = reason := by
  have hcode : ((UInt8.ofNat (code / 100)) &&& 0x07).toNat * 100 + (UInt8.ofNat (code % 100)).toNat = code := by
    have hand : (UInt8.ofNat (code / 100) &&& 0x07).toNat = (UInt8.ofNat (code / 100)).toNat % 2 ^ 3 := by
      rw [UInt8.toNat_and]
      exact Nat.and_two_pow_sub_one_eq_mod _ 3
    rw [hand, UInt8.toNat_ofNat', UInt8.toNat_ofNat']
    omega
  have herr : Attr.errorCode ⟨t, 0 :: 0 :: UInt8.ofNat (code / 100) :: UInt8.ofNat (code % 100) :: reason, pos⟩ =
      some code := by
    rw [Attr.errorCode, if_neg (by simp)]
    exact congrArg some hcode
  refine ⟨_, by rw [decodeErrorCode, herr]; rfl, ?_⟩
  cases reason with
  | nil => rfl
  | cons c reason =>
    rw [if_pos (by simp)]
    rfl

/-- The readers return for an attribute of a message what the call wrote: the address, the error code with
its reason, and that the signature holds. -/
def Reads (hmac : Bytes → Bytes → Digest) (crc : Bytes → UInt32) (raw txnId : Bytes) (a : Attr) : Write → Prop
  | .xorMappedAddress s => decodeXorAddress txnId a = some s.1
  | .xorPeerAddress s => decodeXorAddress txnId a = some s.1
  | .mappedAddress s => decodeMappedAddress a = some s.1
  | .errorCode code reason =>
    ∃ r, decodeErrorCode a = some (code, r) ∧ r.getD [] = (reason.map CStr.bytes).getD []
  | .messageIntegrity key => verifyMessageIntegrity (fun k m => (hmac k m).1) raw a key = true
  | .fingerprint => verifyFingerprint crc raw a = true
  | _ => True

variable {raw : Bytes} {cs : List Write}

theorem signedBytes_eq {rest : Bytes} {k : ℕ}
    (hraw : raw = header w.type w.txnId k ++ (w.buf ++ rest)) :
    raw.take 2 ++ writeU16 (w.buf.length + n) ++ (raw.drop 4).take (headerSize + w.buf.length - 4) =
      signedBytes w n := by
  subst hraw
  have hid : w.txnId.1.length = 12 := w.txnId.2
  have hdrop : (header w.type w.txnId k ++ (w.buf ++ rest)).drop 4 =
      (magicCookie ++ w.txnId.1 ++ w.buf) ++ rest := by
    show (magicCookie ++ w.txnId.1) ++ (w.buf ++ rest) = _
    simp only [append_assoc]
  have hlen : headerSize + w.buf.length - 4 = (magicCookie ++ w.txnId.1 ++ w.buf).length := by
    simp only [length_append, hid, headerSize, magicCookie, length_cons, length_nil]
    omega
  have htake : (header w.type w.txnId k ++ (w.buf ++ rest)).take 2 = writeU16 w.type.toNat := rfl
  rw [htake, hdrop, hlen, take_left']
  · show writeU16 w.type.toNat ++ writeU16 (w.buf.length + n) ++ (magicCookie ++ w.txnId.1 ++ w.buf) = _
    simp only [signedBytes, header, append_assoc]
  · rfl

theorem reads_value {c : Write} {k : ℕ} (rest : Bytes)
    (h : w.write hmac crc c = some w')
    (hraw : raw = header w.type w.txnId k ++ (w.buf ++ rest)) :
    Reads hmac crc raw w.txnId.1 ⟨c.attrType, c.value hmac crc w, w.buf.length⟩ c := by
  have haddr {t : ℕ} {xor : Bool} {a : Addr} (h : encodeAddress w t a xor w.txnId.1 = some w') :
      addressValue xor w.txnId.1 a = some ((addressValue xor w.txnId.1 a).getD []) := by
    unfold encodeAddress at h
    cases hv : addressValue xor w.txnId.1 a with
    | none => rw [hv] at h; cases h
    | some v => rfl
  cases c with
  | xorMappedAddress a | xorPeerAddress a => exact decodeXorAddress_value w.txnId.2 a.2 (haddr h)
  | mappedAddress a => exact decodeMappedAddress_value a.2 (haddr h)
  | errorCode code reason =>
    unfold Writer.write at h
    dsimp only at h
    split_ifs at h with hcode hlen
    push Not at hcode
    exact decodeErrorCode_value hcode.1 hcode.2
  | messageIntegrity key =>
    have hlen : (hmac key (signedBytes w 24)).1.length = 20 := (hmac key (signedBytes w 24)).2
    have hsigned : macInput raw w.buf.length = signedBytes w 24 := signedBytes_eq hraw
    show (decide ((hmac key (signedBytes w 24)).1.length = 20) &&
      decide ((hmac key (macInput raw w.buf.length)).1 = (hmac key (signedBytes w 24)).1)) = true
    rw [hsigned, hlen]
    simp
  | fingerprint =>
    have hxor : (crc (signedBytes w 8)).toNat ^^^ fingerprintXor < 4294967296 :=
      Nat.xor_lt_two_pow (n := 32) (crc (signedBytes w 8)).toNat_lt (by decide)
    show (decide (4 = 4) && decide ((crc (raw.take 2 ++ writeU16 (w.buf.length + 8) ++
      (raw.drop 4).take (headerSize + w.buf.length - 4))).toNat ^^^ fingerprintXor =
        readBE (writeU32 ((crc (signedBytes w 8)).toNat ^^^ fingerprintXor)))) = true
    rw [signedBytes_eq hraw, readBE_writeU32, Nat.mod_eq_of_lt hxor]
    simp
  | _ => trivial

theorem attrType_lt (c : Write) : c.attrType < 65536 := by
  cases c <;> simp only [Write.attrType] <;> decide

/-! ### Reading back a message -/

theorem writeAll_cons {c : Write}
    (h : w.writeAll hmac crc (c :: cs) = some w') :
    ∃ w₁, w.write hmac crc c = some w₁ ∧ w₁.writeAll hmac crc cs = some w' := by
  rw [Writer.writeAll] at h
  exact Option.bind_eq_some_iff.mp h

theorem writeAll_buf (h : w.writeAll hmac crc cs = some w') :
    w'.type = w.type ∧ w'.txnId = w.txnId ∧ ∃ rest, w'.buf = w.buf ++ rest := by
  induction cs generalizing w with
  | nil =>
    obtain rfl := Option.some.inj h
    exact ⟨rfl, rfl, [], by rw [List.append_nil]⟩
  | cons c cs ih =>
    obtain ⟨w₁, hw, hcs⟩ := writeAll_cons h
    obtain ⟨⟨rfl, -⟩, -⟩ := write_eq_some hw
    obtain ⟨ht, hid, rest, hrest⟩ := ih hcs
    exact ⟨ht, hid, _, by rw [hrest]; exact append_assoc _ _ _⟩

theorem asked_cons {w₁ : Writer} {c : Write} (h : w.write hmac crc c = some w₁) :
    w.asked hmac crc (c :: cs) = (c.attrType, c.value hmac crc w) :: w₁.asked hmac crc cs := by
  rw [Writer.asked, h]

theorem length_writeAll (h : w.writeAll hmac crc cs = some w')
    (hs : ∀ c ∈ cs, c.size < 65536) : w'.buf.length = w.buf.length + room cs := by
  induction cs generalizing w with
  | nil =>
    obtain rfl := Option.some.inj h
    rfl
  | cons c cs ih =>
    obtain ⟨w₁, hw, hcs⟩ := writeAll_cons h
    obtain ⟨⟨rfl, -⟩, hlen⟩ := write_eq_some hw
    have hshort := hs c mem_cons_self
    have hrec := ih hcs (fun c hc => hs c (mem_cons_of_mem _ hc))
    rw [hrec, cut_of_short (by omega)]
    simp only [length_append, length_tlv, hlen, room, map_cons, sum_cons]
    omega

/-- With short values, the iterator gives back the attributes that were asked for, and the readers their
contents. -/
theorem iterAttrs_writeAll {k : ℕ}
    (h : w.writeAll hmac crc cs = some w') (hs : ∀ c ∈ cs, c.size < 65536) (hn : cs.length ≤ n)
    (hraw : raw = header w.type w.txnId k ++ w'.buf) :
    (iterAttrs n w.buf.length (w'.buf.drop w.buf.length)).map (fun a => (a.type, a.value)) = w.asked hmac crc cs ∧
      List.Forall₂ (Reads hmac crc raw w.txnId.1) (iterAttrs n w.buf.length (w'.buf.drop w.buf.length)) cs := by
  induction cs generalizing w n with
  | nil =>
    obtain rfl := Option.some.inj h
    rw [drop_length]
    cases n with
    | zero | succ n => exact ⟨rfl, .nil⟩
  | cons c cs ih =>
    obtain ⟨w₁, hw, hcs⟩ := writeAll_cons h
    obtain ⟨⟨hw₁, -⟩, hlen⟩ := write_eq_some hw
    obtain ⟨n, rfl⟩ : ∃ m, n = m + 1 := ⟨n - 1, by rw [length_cons] at hn; omega⟩
    have hshort : (c.value hmac crc w).length < 65536 := by
      have := hs c mem_cons_self
      omega
    rw [cut_of_short hshort] at hw₁
    have hbuf : w₁.buf = w.buf ++ tlv c.attrType (c.value hmac crc w) := by rw [hw₁]
    have hlen₁ : w₁.buf.length = w.buf.length + (4 + align4 (c.value hmac crc w).length) := by
      rw [hbuf, length_append, length_tlv]
    obtain ⟨-, -, rest, hrest⟩ := writeAll_buf hcs
    have hdrop : w'.buf.drop w.buf.length = tlv c.attrType (c.value hmac crc w) ++ rest := by
      rw [hrest, hbuf, append_assoc, drop_left']
      rfl
    have hdrop₁ : w'.buf.drop w₁.buf.length = rest := by
      rw [hrest, drop_left']
      rfl
    have hid : w₁.txnId = w.txnId := by rw [hw₁]
    have ht : w₁.type = w.type := by rw [hw₁]
    have hrec := ih hcs (fun c hc => hs c (mem_cons_of_mem _ hc)) (n := n)
      (by rw [length_cons] at hn; omega) (by rw [hid, ht]; exact hraw)
    rw [hdrop₁, hlen₁, hid] at hrec
    rw [hdrop, iterAttrs_tlv (attrType_lt c) hshort, asked_cons hw]
    refine ⟨by rw [map_cons, hrec.1], .cons ?_ hrec.2⟩
    exact reads_value (tlv c.attrType (c.value hmac crc w) ++ rest) hw
      (by rw [hraw, hrest, hbuf, append_assoc])

/-- `xStunAttrWriterInit` behind the header of a message. -/
def Writer.init (type : MsgType) (txnId : TxnId) (cap : ℕ) : Writer := ⟨type, txnId, [], cap⟩

/-- The attribute bytes of a message: `attrs` and `attrs_len`. -/
def attrBytes (raw : Bytes) : Bytes := (raw.drop headerSize).take (readBE ((raw.drop 2).take 2))

/-- Decoding undoes encoding: the message has the type and the identifier, iteration gives the types and
values that were asked for and stops, and the readers return what was written. -/
def Undone (hmac : Bytes → Bytes → Digest) (crc : Bytes → UInt32) (type : MsgType) (txnId : TxnId) (cap : ℕ)
    (cs : List Write) (raw : Bytes) : Prop :=
  ∃ msg, decode raw = some msg ∧ msg.type = type.toNat ∧ msg.txnId = txnId.1 ∧
    Unfolds Iter.next ⟨attrBytes raw, 0⟩ msg.attrs ∧
    msg.attrs.map (fun a => (a.type, a.value)) = (Writer.init type txnId cap).asked hmac crc cs ∧
    List.Forall₂ (Reads hmac crc raw txnId.1) msg.attrs cs

/-- Iteration over a message ends, and every attribute lies within the message. -/
def Within (raw : Bytes) (msg : StunMsg) : Prop :=
  Unfolds Iter.next ⟨attrBytes raw, 0⟩ msg.attrs ∧ headerSize + (attrBytes raw).length ≤ raw.length ∧
    ∀ a ∈ msg.attrs, a.offset + 4 + a.value.length ≤ (attrBytes raw).length ∧
      a.value = (raw.drop (headerSize + (a.offset + 4))).take a.value.length

theorem decode_eq_some {msg : StunMsg} (h : decode raw = some msg) :
    headerSize + readBE ((raw.drop 2).take 2) ≤ raw.length ∧
      msg.attrs = iterAttrs (readBE ((raw.drop 2).take 2)) 0 (attrBytes raw) := by
  unfold decode at h
  split_ifs at h
  dsimp only at h
  split_ifs at h
  obtain rfl := Option.some.inj h
  exact ⟨by omega, rfl⟩

theorem unfolds_of_decode {msg : StunMsg} (h : decode raw = some msg) :
    Unfolds Iter.next ⟨attrBytes raw, 0⟩ msg.attrs := by
  obtain ⟨-, hattrs⟩ := decode_eq_some h
  rw [hattrs]
  exact unfolds_iterAttrs _ (attrBytes raw) 0 (by rw [attrBytes, length_take]; omega)

theorem within_of_decode {msg : StunMsg} (h : decode raw = some msg) : Within raw msg := by
  obtain ⟨hlen, -⟩ := decode_eq_some h
  have hun := unfolds_of_decode h
  refine ⟨hun, by rw [attrBytes, length_take, length_drop]; omega, ?_⟩
  refine hun.forall_mem (I := fun it => it.data = attrBytes raw) rfl ?_
  intro it a it' hdata hnext
  obtain ⟨hle, hval, hdata'⟩ := within_of_next hnext
  rw [hdata] at hle hval
  refine ⟨⟨hle, ?_⟩, hdata'.trans hdata⟩
  rw [attrBytes, length_take, length_drop] at hle
  conv_lhs => rw [hval, attrBytes]
  rw [drop_take, take_take, drop_drop, Nat.min_eq_left (by omega)]

theorem decode_header (type : MsgType) (txnId : TxnId) {attrs : Bytes} (h : attrs.length < 65536) :
    decode (header type txnId attrs.length ++ attrs) = some ⟨type.toNat, txnId.1, iterAttrs attrs.length 0 attrs⟩ ∧
      attrBytes (header type txnId attrs.length ++ attrs) = attrs := by
  obtain ⟨id, hid⟩ := txnId
  have hlen : (header type ⟨id, hid⟩ attrs.length).length = headerSize := by
    simp [header, magicCookie, hid, headerSize]
  have htop : ((header type ⟨id, hid⟩ attrs.length ++ attrs).headD 0) &&& 0xC0 = 0 := by
    show UInt8.ofNat (type.toNat / 256) &&& 0xC0 = 0
    cases type <;> decide
  have hcookie : ((header type ⟨id, hid⟩ attrs.length ++ attrs).drop 4).take 4 = magicCookie := rfl
  have hl : readBE (((header type ⟨id, hid⟩ attrs.length ++ attrs).drop 2).take 2) = attrs.length := by
    show readBE (writeU16 attrs.length) = _
    rw [readBE_writeU16, Nat.mod_eq_of_lt h]
  have ht : readBE ((header type ⟨id, hid⟩ attrs.length ++ attrs).take 2) = type.toNat := by
    show readBE (writeU16 type.toNat) = _
    rw [readBE_writeU16]
    cases type <;> rfl
  have hattrs : (header type ⟨id, hid⟩ attrs.length ++ attrs).drop headerSize = attrs := by
    rw [← hlen, drop_left']
    rfl
  have hid' : ((header type ⟨id, hid⟩ attrs.length ++ attrs).drop 8).take 12 = id := by
    show (id ++ attrs).take 12 = id
    rw [← hid, take_left']
    rfl
  constructor
  · rw [decode, if_neg (by rw [length_append]; omega), if_neg (by rw [htop]; simp), if_neg (by rw [hcookie]; simp)]
    dsimp only
    rw [hl, if_neg (by rw [length_append]; omega), ht, hid', hattrs, take_length]
  · rw [attrBytes, hl, hattrs, take_length]

theorem room_of_unfolds {it : Iter} {as : List Attr} (h : Unfolds Iter.next it as) :
    as = [] ∨ it.pos + (as.map (fun a => 4 + align4 a.value.length)).sum ≤ it.data.length + 3 := by
  induction h with
  | done => exact .inl rfl
  | @more s t a as hs ht ih =>
    obtain ⟨hle, -, hdata⟩ := within_of_next hs
    have hpos : t.pos = s.pos + (4 + align4 a.value.length) ∧ a.offset = s.pos := by
      rw [Iter.next] at hs
      split_ifs at hs with h4
      dsimp only at hs
      split_ifs at hs with hl
      simp only [Option.some.injEq, Prod.mk.injEq] at hs
      obtain ⟨rfl, rfl⟩ := hs
      refine ⟨?_, rfl⟩
      dsimp only
      rw [length_take, length_drop, length_drop, Nat.min_eq_left (by omega)]
    have hpad := align4_le a.value.length
    right
    rw [map_cons, sum_cons]
    rcases ih with rfl | ih
    · rw [map_nil, sum_nil]
      omega
    · rw [hdata] at ih
      omega

theorem value_of_iterAttrs {b : Bytes} {a : Attr} (h : a ∈ iterAttrs n pos b) :
    a.value.length < 65536 := by
  induction n generalizing pos b with
  | zero => exact absurd h not_mem_nil
  | succ n ih =>
    rw [iterAttrs] at h
    split_ifs at h
    · exact absurd h not_mem_nil
    · dsimp only at h
      split_ifs at h
      · exact absurd h not_mem_nil
      · rcases mem_cons.mp h with rfl | h
        · have hl : readBE ((b.drop 2).take 2) < 65536 := by
            obtain ⟨x, y, hxy⟩ : ∃ x y, (b.drop 2).take 2 = [x, y] :=
              length_eq_two.mp (by rw [length_take, length_drop]; omega)
            have hx := x.toNat_lt
            have hy := y.toNat_lt
            rw [hxy, readBE_cons, readBE_cons]
            simp only [length_cons, length_nil, readBE, foldl_nil]
            omega
          dsimp only
          rw [length_take]
          omega
        · exact ih h

theorem asked_sizes (h : w.writeAll hmac crc cs = some w') :
    (w.asked hmac crc cs).map (fun p => p.2.length) = cs.map Write.size := by
  induction cs generalizing w with
  | nil => rfl
  | cons c cs ih =>
    obtain ⟨w₁, hw, hcs⟩ := writeAll_cons h
    obtain ⟨-, hlen⟩ := write_eq_some hw
    rw [asked_cons hw, map_cons, map_cons, ih hcs, hlen]

theorem size_lt_of_room (h : room cs < 65536) : ∀ c ∈ cs, c.size < 65536 := by
  intro c hc
  have hle : 4 + align4 c.size ≤ room cs := le_sum_of_mem (mem_map_of_mem hc)
  have hpad := le_align4 c.size
  omega

theorem length_le_room (cs : List Write) : cs.length ≤ room cs := by
  induction cs with
  | nil => exact Nat.le_refl 0
  | cons c cs ih =>
    rw [length_cons, room, map_cons, sum_cons]
    unfold room at ih
    omega

theorem short_of_undone {type : MsgType} {txnId : TxnId} {cap : ℕ}
    (hw : (Writer.init type txnId cap).writeAll hmac crc cs = some w) (h : Undone hmac crc type txnId cap cs raw) :
    ∀ c ∈ cs, c.size < 65536 := by
  obtain ⟨msg, hmsg, -, -, -, hmap, -⟩ := h
  obtain ⟨-, hattrs⟩ := decode_eq_some hmsg
  have hsizes : msg.attrs.map (fun a => a.value.length) = cs.map Write.size := by
    rw [← asked_sizes hw, ← hmap, map_map]
    rfl
  intro c hc
  have hmem : c.size ∈ msg.attrs.map (fun a => a.value.length) := hsizes ▸ mem_map_of_mem hc
  obtain ⟨a, ha, hsize⟩ := mem_map.mp hmem
  rw [← hsize]
  exact value_of_iterAttrs (hattrs ▸ ha)

theorem room_of_undone {type : MsgType} {txnId : TxnId} {cap bufLen : ℕ}
    (hw : (Writer.init type txnId cap).writeAll hmac crc cs = some w)
    (hraw : encode type txnId w.buf bufLen = some raw) (h : Undone hmac crc type txnId cap cs raw) :
    room cs < 65536 := by
  have hlen := length_writeAll hw (short_of_undone hw h)
  obtain ⟨msg, -, -, -, hun, hmap, -⟩ := h
  have hroom : room cs = (msg.attrs.map (fun a => 4 + align4 a.value.length)).sum := by
    have hsizes : cs.map Write.size = msg.attrs.map (fun a => a.value.length) := by
      rw [← asked_sizes hw, ← hmap, map_map]
      rfl
    have hcs : cs.map (fun c => 4 + align4 c.size) = (cs.map Write.size).map (fun n => 4 + align4 n) := by
      rw [map_map]
      rfl
    rw [room, hcs, hsizes, map_map]
    rfl
  have hbytes : (attrBytes raw).length ≤ w.buf.length % 65536 := by
    rw [encode] at hraw
    split_ifs at hraw
    obtain rfl := Option.some.inj hraw
    have hl : readBE (((header type txnId (w.buf.length % 65536) ++ w.buf.take (w.buf.length % 65536)).drop 2).take 2) =
        w.buf.length % 65536 := by
      show readBE (writeU16 _) = _
      rw [readBE_writeU16, Nat.mod_mod]
    rw [attrBytes, hl, length_take]
    omega
  rcases room_of_unfolds hun with hnil | hle
  · rw [hroom, hnil]
    decide
  · dsimp only at hle
    rw [← hroom] at hle
    simp only [Writer.init, length_nil] at hlen
    -- the last padding is all that the iterator does not look at
    omega

theorem undone_of_room {type : MsgType} {txnId : TxnId} {cap bufLen : ℕ}
    (hw : (Writer.init type txnId cap).writeAll hmac crc cs = some w)
    (hraw : encode type txnId w.buf bufLen = some raw) (h : room cs < 65536) :
    Undone hmac crc type txnId cap cs raw := by
  have hshort := size_lt_of_room h
  have hlen := length_writeAll hw hshort
  simp only [Writer.init, length_nil, Nat.zero_add] at hlen
  have hbuf : w.buf.length < 65536 := by omega
  have heq : raw = header type txnId w.buf.length ++ w.buf := by
    rw [encode] at hraw
    split_ifs at hraw
    rw [Nat.mod_eq_of_lt hbuf, take_length] at hraw
    exact (Option.some.inj hraw).symm
  obtain ⟨hdec, hattrs⟩ := decode_header type txnId hbuf
  rw [← heq] at hdec
  have hle := length_le_room cs
  obtain ⟨hmap, hreads⟩ := iterAttrs_writeAll hw hshort (n := w.buf.length) (by omega) heq
  exact ⟨_, hdec, rfl, rfl, unfolds_of_decode hdec, hmap, hreads⟩

/-- **Decoding undoes encoding** if and only if the attributes fit the 16-bit length of a message; and
whatever the bytes, the iteration over a message stays within it and ends. -/
theorem decode_encode_iff (hmac : Bytes → Bytes → Digest) (crc : Bytes → UInt32) (type : MsgType) (txnId : TxnId)
    (cap bufLen : ℕ) (cs : List Write) (w : Writer) (raw any : Bytes)
    (hw : (Writer.init type txnId cap).writeAll hmac crc cs = some w)
    (hraw : encode type txnId w.buf bufLen = some raw) :
    (Undone hmac crc type txnId cap cs raw ↔ room cs < 65536) ∧ ∀ msg, decode any = some msg → Within any msg :=
  ⟨⟨room_of_undone hw hraw, undone_of_room hw hraw⟩, fun _ => within_of_decode⟩

/-! ### A check, and data that is too long -/

section Examples

def someId : TxnId := ⟨[1, 2, 3, 4, 5, 6, 7, 8, 9, 10, 11, 12], rfl⟩

/-- A digest for the examples: the first bytes of what is signed. -/
def someHmac (key msg : Bytes) : Digest := ⟨((key ++ msg) ++ List.replicate 20 0).take 20, by simp; omega⟩

def someCrc (b : Bytes) : UInt32 := UInt32.ofNat b.length

def someAnswer : List Write :=
  [.xorMappedAddress ⟨.v4 3232235777 40000, by decide⟩, .software (cstr [108, 105, 98, 120, 49]),
    .errorCode 487 (some (cstr [82, 111])), .messageIntegrity [7, 8], .fingerprint]

theorem decode_encode_answer : ∃ w raw, (Writer.init .bindingResponse someId 256).writeAll someHmac someCrc
    someAnswer = some w ∧ encode .bindingResponse someId w.buf 256 = some raw ∧
    Undone someHmac someCrc .bindingResponse someId 256 someAnswer raw ∧
    ∀ msg, decode raw = some msg → Within raw msg := by
  have hw : ((Writer.init .bindingResponse someId 256).writeAll someHmac someCrc someAnswer).isSome := by decide
  obtain ⟨w, hw⟩ := Option.isSome_iff_exists.mp hw
  have hlen := length_writeAll hw (size_lt_of_room (by decide))
  have hroom : room someAnswer = 68 := by decide
  have hraw : (encode .bindingResponse someId w.buf 256).isSome := by
    rw [encode, if_neg]
    · rfl
    · simp only [Writer.init, length_nil, headerSize] at hlen ⊢
      omega
  obtain ⟨raw, hraw⟩ := Option.isSome_iff_exists.mp hraw
  have h := decode_encode_iff someHmac someCrc .bindingResponse someId 256 256 someAnswer w raw raw hw hraw
  exact ⟨w, raw, hw, hraw, h.1.mpr (by decide), h.2⟩

/-- 65536 bytes of data are written as none. -/
theorem not_undone_longData : ∃ w raw, (Writer.init .sendIndication someId 70000).writeAll someHmac someCrc
    [.data (List.replicate 65536 0)] = some w ∧ encode .sendIndication someId w.buf 70000 = some raw ∧
    ¬ Undone someHmac someCrc .sendIndication someId 70000 [.data (List.replicate 65536 0)] raw := by
  have hw (v : Bytes) (hv : v.length = 65536) : (Writer.init .sendIndication someId 70000).writeAll someHmac someCrc
      [.data v] = some ⟨.sendIndication, someId, tlv attrData [], 70000⟩ := by
    simp only [Writer.writeAll, Writer.write, attrWriteRaw, Writer.init, hv, Nat.mod_self, take_zero]
    rfl
  refine ⟨_, header .sendIndication someId 4 ++ tlv attrData [], hw _ length_replicate, rfl, fun h => ?_⟩
  have hlt := short_of_undone (hw _ length_replicate) h _ (mem_singleton.mpr rfl)
  rw [Write.size, length_replicate] at hlt
  omega

end Examples

end Libx.Ice
