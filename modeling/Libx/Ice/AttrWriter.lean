import Libx.Core.Overwrite
import Libx.Ice.Codec

/-!
# Libx.Ice.AttrWriter — attributes are written whole or not at all

The writers of stun_attr.c on the memory they write to.  `Libx.Ice.Writer` is what has been written of it.
-/

namespace Libx.Ice

open Libx.Agent (Bytes CStr Errno)
open Libx.Core (overwrite overwrites overwrite_of_le overwrite_overwrite length_le_overwrites)
open List Option

/-- `xStunAttrWriter`, the object that `buf` is the start of, and the header that `msg_buf` holds in front of it. -/
structure AttrWriter where
  type : MsgType
  txnId : TxnId
  mem : Bytes
  cap : ℕ
  pos : ℕ
  cap_le : cap ≤ mem.length
  pos_le : pos ≤ cap

namespace AttrWriter

def toWriter (w : AttrWriter) : Writer := ⟨w.type, w.txnId, w.mem.take w.pos, w.cap⟩

/-- The writes of `attr_write_raw` at `p`, of a value of `valueLen` bytes. -/
def rawWrites (p type valueLen : ℕ) (value : Bytes) : List (ℕ × Bytes) :=
  [(p, writeU16 type), (p + 2, writeU16 valueLen), (p + 4, value.take valueLen),
    (p + 4 + valueLen, List.replicate (align4 valueLen - valueLen) 0)]

/-- `attr_write_raw`; `valueLen` is 16 bits wide. -/
def attrWriteRaw (w : AttrWriter) (type : ℕ) (value : Bytes) (valueLen : ℕ) : Errno × AttrWriter :=
  let valueLen := valueLen % 65536
  let total := 4 + align4 valueLen
  if h : w.cap < w.pos + total then (.noMemory, w)
  else
    (.ok, { w with
      mem := overwrites 0 (rawWrites w.pos type valueLen value) w.mem
      pos := w.pos + total
      cap_le := w.cap_le.trans (length_le_overwrites _ _)
      pos_le := Nat.le_of_not_lt h })

/-- `encode_address`. -/
def encodeAddress (w : AttrWriter) (type : ℕ) (a : Addr) (xor : Bool) : Errno × AttrWriter :=
  match addressValue xor w.txnId.1 a with
  | none => (.invalidArg, w)
  | some value => w.attrWriteRaw type value value.length

section Hash

variable (hmac : Bytes → Bytes → Digest) (crc : Bytes → UInt32)

/-- The `xStunAttrWrite*` functions; `none` when the array on the stack is overrun. -/
def write (w : AttrWriter) : Write → Option (Errno × AttrWriter)
  | .xorMappedAddress a => some (w.encodeAddress attrXorMappedAddress a.1 true)
  | .mappedAddress a => some (w.encodeAddress attrMappedAddress a.1 false)
  | .xorPeerAddress a => some (w.encodeAddress attrXorPeerAddress a.1 true)
  | .username remote loc =>
    let value := remote.bytes ++ 58 :: loc.bytes
    if 256 < value.length then some (.noMemory, w) else some (w.attrWriteRaw attrUsername value value.length)
  | .realm s => some (w.attrWriteRaw attrRealm s.bytes s.bytes.length)
  | .nonce s => some (w.attrWriteRaw attrNonce s.bytes s.bytes.length)
  | .software s => some (w.attrWriteRaw attrSoftware s.bytes s.bytes.length)
  | .messageIntegrity key => some (w.attrWriteRaw attrMessageIntegrity (hmac key (signedBytes w.toWriter 24)).1 20)
  | .fingerprint =>
    some (w.attrWriteRaw attrFingerprint (writeU32 ((crc (signedBytes w.toWriter 8)).toNat ^^^ fingerprintXor)) 4)
  | .priority n => some (w.attrWriteRaw attrPriority (writeU32 n.toNat) 4)
  | .useCandidate => some (w.attrWriteRaw attrUseCandidate [] 0)
  | .iceControlling t => some (w.attrWriteRaw attrIceControlling (writeU64 t.toNat) 8)
  | .iceControlled t => some (w.attrWriteRaw attrIceControlled (writeU64 t.toNat) 8)
  | .lifetime n => some (w.attrWriteRaw attrLifetime (writeU32 n.toNat) 4)
  | .requestedTransport n => some (w.attrWriteRaw attrRequestedTransport (writeU32 n.toNat) 4)
  | .channelNumber n => some (w.attrWriteRaw attrChannelNumber (writeU16 n.toNat ++ writeU16 0) 4)
  | .data b => some (w.attrWriteRaw attrData b b.length)
  | .errorCode code reason =>
    let reason := (reason.map CStr.bytes).getD []
    if code < 300 ∨ 699 < code then some (.invalidArg, w)
    else
      let valueLen := (4 + reason.length) % 65536
      if 256 < valueLen then some (.noMemory, w)
      -- the reason is copied to `value[256]`
      else if 256 < 4 + reason.length then none
      else
        some (w.attrWriteRaw attrErrorCode
          (0 :: 0 :: UInt8.ofNat (code / 100) :: UInt8.ofNat (code % 100) :: reason) valueLen)

/-- A call; `none` has NULL for a string, a key or `msg_buf`, or a negative code. -/
def call (w : AttrWriter) : Option Write → Option (Errno × AttrWriter)
  | none => some (.invalidArg, w)
  | some c => w.write hmac crc c

end Hash

/-! ### What is asked -/

/-- The attribute has been appended: all of its value, and zeros; the length field is the length of the value, and no other
byte has changed. -/
structure Appended (type : ℕ) (value : Bytes) (w w' : AttrWriter) : Prop where
  short : value.length < 65536
  mem : w'.mem = w.mem.take w.pos ++ tlv type value ++ w.mem.drop (w.pos + (tlv type value).length)
  pos : w'.pos = w.pos + (tlv type value).length
  cap : w'.cap = w.cap

/-- A call returns, with `xErrno_Ok` and the attribute appended, or with an error and nothing changed. -/
def Whole (hmac : Bytes → Bytes → Digest) (crc : Bytes → UInt32) (w : AttrWriter) (c : Option Write) : Prop :=
  ∃ r w', w.call hmac crc c = some (r, w') ∧
    ((r = .ok ∧ ∃ c', c = some c' ∧ Appended c'.attrType (c'.value hmac crc w.toWriter) w w') ∨ r ≠ .ok ∧ w' = w)

/-- The length fits its field, or what is left of it does not fit the buffer. -/
def Takes (w : AttrWriter) (len : ℕ) : Prop := len < 65536 ∨ w.cap < w.pos + (4 + align4 (len % 65536))

/-- **The condition**, on the values of any length: they fit the length field, or there is no room for what is left of
them; and a reason does not pass the check on its length because that wraps. -/
def Clean (w : AttrWriter) : Option Write → Prop
  | some (.realm s) => w.Takes s.bytes.length
  | some (.nonce s) => w.Takes s.bytes.length
  | some (.software s) => w.Takes s.bytes.length
  | some (.data b) => w.Takes b.length
  | some (.errorCode code reason) =>
    let len := 4 + ((reason.map CStr.bytes).getD []).length
    300 ≤ code ∧ code ≤ 699 → len < 65536 ∨ 256 < len % 65536
  | _ => True

variable {hmac : Bytes → Bytes → Digest} {crc : Bytes → UInt32} {w w' : AttrWriter} {type : ℕ} {value : Bytes}

/-! ### The raw writer -/

theorem overwrites_raw {p : ℕ} {mem : Bytes} (h : p + (tlv type value).length ≤ mem.length) :
    overwrites 0 (rawWrites p type value.length value) mem =
      mem.take p ++ tlv type value ++ mem.drop (p + (tlv type value).length) := by
  have hlen := length_tlv type value
  have hle := le_align4 value.length
  have htlv : writeU16 type ++ writeU16 value.length ++ value ++
      List.replicate (align4 value.length - value.length) 0 = tlv type value := by
    simp only [tlv, append_assoc]
  simp only [rawWrites, Core.overwrites_cons, Core.overwrites_nil, take_length]
  have h1 : overwrite 0 (p + 2) (writeU16 value.length) (overwrite 0 p (writeU16 type) mem) =
      overwrite 0 p (writeU16 type ++ writeU16 value.length) mem :=
    overwrite_overwrite rfl (by rw [length_writeU16]; omega)
  have h2 : overwrite 0 (p + 4) value (overwrite 0 p (writeU16 type ++ writeU16 value.length) mem) =
      overwrite 0 p (writeU16 type ++ writeU16 value.length ++ value) mem :=
    overwrite_overwrite rfl (by omega)
  have h3 : overwrite 0 (p + 4 + value.length) (List.replicate (align4 value.length - value.length) 0)
      (overwrite 0 p (writeU16 type ++ writeU16 value.length ++ value) mem) =
      overwrite 0 p (writeU16 type ++ writeU16 value.length ++ value ++
        List.replicate (align4 value.length - value.length) 0) mem :=
    overwrite_overwrite (by simp only [length_append, length_writeU16]; omega)
      (by rw [length_replicate]; omega)
  rw [h1, h2, h3, htlv, overwrite_of_le h]

theorem attrWriteRaw_short (h : value.length < 65536) (w : AttrWriter) (type : ℕ) :
    (∃ w', w.attrWriteRaw type value value.length = (.ok, w') ∧ Appended type value w w') ∨
      w.attrWriteRaw type value value.length = (.noMemory, w) := by
  have hmod := Nat.mod_eq_of_lt h
  by_cases hc : w.cap < w.pos + (4 + align4 (value.length % 65536))
  · exact .inr (dif_pos hc)
  · refine .inl ⟨_, dif_neg hc, h, ?_, ?_, rfl⟩
    · show overwrites 0 (rawWrites w.pos type (value.length % 65536) value) w.mem = _
      rw [hmod] at hc ⊢
      have hcap := w.cap_le
      exact overwrites_raw (by rw [length_tlv]; omega)
    · show w.pos + (4 + align4 (value.length % 65536)) = _
      rw [hmod, length_tlv]

theorem attrWriteRaw_iff (w : AttrWriter) (type : ℕ) (value : Bytes) :
    (∃ r w', w.attrWriteRaw type value value.length = (r, w') ∧ (r = .ok ∧ Appended type value w w' ∨ r ≠ .ok ∧ w' = w)) ↔
      w.Takes value.length := by
  constructor
  · rintro ⟨r, w', he, h⟩
    by_contra ht
    obtain ⟨hlong, hroom⟩ := not_or.mp ht
    unfold attrWriteRaw at he
    rw [dif_neg hroom] at he
    rcases h with ⟨-, ha⟩ | ⟨hr, -⟩
    · exact hlong ha.short
    · exact hr (congrArg Prod.fst he).symm
  · rintro (h | h)
    · rcases attrWriteRaw_short h w type with ⟨w', he, ha⟩ | he
      · exact ⟨_, w', he, .inl ⟨rfl, ha⟩⟩
      · exact ⟨_, w, he, .inr ⟨by decide, rfl⟩⟩
    · exact ⟨_, w, dif_pos h, .inr ⟨by decide, rfl⟩⟩

theorem length_toWriter (w : AttrWriter) : w.toWriter.buf.length = w.pos := by
  have := w.cap_le
  have := w.pos_le
  show (w.mem.take w.pos).length = w.pos
  rw [length_take]
  omega

theorem toWriter_raw (w : AttrWriter) (type : ℕ) (value : Bytes) :
    Ice.attrWriteRaw w.toWriter type value value.length =
      if (w.attrWriteRaw type value value.length).1 = .ok then some (w.attrWriteRaw type value value.length).2.toWriter
      else none := by
  have hcut := length_cut value
  have hcap := w.cap_le
  unfold Ice.attrWriteRaw attrWriteRaw
  rw [length_toWriter, show w.toWriter.cap = w.cap from rfl]
  by_cases hc : w.cap < w.pos + (4 + align4 (value.length % 65536))
  · rw [if_pos hc, dif_pos hc, if_neg (show Errno.noMemory ≠ .ok by decide)]
  · rw [if_neg hc, dif_neg hc, if_pos rfl]
    have hraw : overwrites 0 (rawWrites w.pos type (value.length % 65536) value) w.mem =
        w.mem.take w.pos ++ tlv type (cut value) ++ w.mem.drop (w.pos + (tlv type (cut value)).length) := by
      rw [← overwrites_raw (by rw [length_tlv, hcut]; omega)]
      unfold rawWrites
      rw [hcut, cut, take_take, min_self]
    have hlen : (w.mem.take w.pos ++ tlv type (cut value)).length = w.pos + (4 + align4 (value.length % 65536)) := by
      rw [length_append, length_tlv, hcut, length_take]
      omega
    refine congrArg some ?_
    show Writer.mk w.type w.txnId (w.mem.take w.pos ++ tlv type (cut value)) w.cap = Writer.mk w.type w.txnId
      ((overwrites 0 (rawWrites w.pos type (value.length % 65536) value) w.mem).take
        (w.pos + (4 + align4 (value.length % 65536)))) w.cap
    rw [hraw, take_left' hlen]

theorem toWriter_address (w : AttrWriter) (type : ℕ) (a : Addr) (xor : Bool) :
    Ice.encodeAddress w.toWriter type a xor w.txnId.1 =
      if (w.encodeAddress type a xor).1 = .ok then some (w.encodeAddress type a xor).2.toWriter else none := by
  unfold Ice.encodeAddress encodeAddress
  cases addressValue xor w.txnId.1 a with
  | none => rfl
  | some value => exact toWriter_raw w type value

/-- **Refinement**: the writers on the memory do to what has been written what the writers on bytes do. -/
theorem toWriter_write {c : Write} {r : Errno} (h : w.write hmac crc c = some (r, w')) :
    w.toWriter.write hmac crc c = if r = .ok then some w'.toWriter else none := by
  have hraw : ∀ {type n : ℕ} {value : Bytes}, value.length = n → some (w.attrWriteRaw type value n) = some (r, w') →
      Ice.attrWriteRaw w.toWriter type value n = if r = .ok then some w'.toWriter else none := by
    rintro type _ value rfl h
    have := toWriter_raw w type value
    rwa [some.inj h] at this
  have haddr : ∀ {type : ℕ} {a : Addr} {xor : Bool}, some (w.encodeAddress type a xor) = some (r, w') →
      Ice.encodeAddress w.toWriter type a xor w.txnId.1 = if r = .ok then some w'.toWriter else none := by
    intro type a xor h
    have := toWriter_address w type a xor
    rwa [some.inj h] at this
  cases c with
  | xorMappedAddress a | mappedAddress a | xorPeerAddress a => exact haddr h
  | username remote loc =>
    unfold write at h
    unfold Writer.write
    dsimp only at h ⊢
    by_cases hlen : 256 < (remote.bytes ++ 58 :: loc.bytes).length
    · rw [if_pos hlen] at h ⊢
      obtain ⟨rfl, rfl⟩ := Prod.mk.inj (some.inj h)
      rfl
    · rw [if_neg hlen] at h ⊢
      exact hraw rfl h
  | messageIntegrity key => exact hraw (hmac key (signedBytes w.toWriter 24)).2 h
  | errorCode code reason =>
    unfold write at h
    unfold Writer.write
    dsimp only at h ⊢
    by_cases hcode : code < 300 ∨ 699 < code
    · rw [if_pos hcode] at h ⊢
      obtain ⟨rfl, rfl⟩ := Prod.mk.inj (some.inj h)
      rfl
    rw [if_neg hcode] at h ⊢
    by_cases hcheck : 256 < (4 + ((reason.map CStr.bytes).getD []).length) % 65536
    · rw [if_pos hcheck] at h
      rw [if_pos (.inl hcheck)]
      obtain ⟨rfl, rfl⟩ := Prod.mk.inj (some.inj h)
      rfl
    split_ifs at h with hover
    rw [if_neg (not_or.mpr ⟨hcheck, hover⟩)]
    rw [Nat.mod_eq_of_lt (show 4 + ((reason.map CStr.bytes).getD []).length < 65536 by omega)] at h
    exact hraw (by simp only [length_cons]; omega) h
  | _ => exact hraw rfl h

/-! ### The writers -/

theorem whole_raw_iff {c : Write} (hc : w.write hmac crc c =
    some (w.attrWriteRaw c.attrType (c.value hmac crc w.toWriter) (c.value hmac crc w.toWriter).length)) :
    Whole hmac crc w (some c) ↔ w.Takes (c.value hmac crc w.toWriter).length := by
  rw [← attrWriteRaw_iff w c.attrType]
  unfold Whole call
  dsimp only
  rw [hc]
  constructor
  · rintro ⟨r, w', he, h⟩
    refine ⟨r, w', some.inj he, h.imp (fun ⟨hr, c', hc', ha⟩ => ⟨hr, ?_⟩) id⟩
    obtain rfl := some.inj hc'
    exact ha
  · rintro ⟨r, w', he, h⟩
    exact ⟨r, w', congrArg some he, h.imp (fun ⟨hr, ha⟩ => ⟨hr, c, rfl, ha⟩) id⟩

theorem whole_short {c : Write} (hc : w.write hmac crc c =
    some (w.attrWriteRaw c.attrType (c.value hmac crc w.toWriter) (c.value hmac crc w.toWriter).length))
    (h : (c.value hmac crc w.toWriter).length < 65536) : Whole hmac crc w (some c) :=
  (whole_raw_iff hc).mpr (.inl h)

theorem whole_refused {c : Option Write} {r : Errno} (hc : w.call hmac crc c = some (r, w)) (hr : r ≠ .ok) :
    Whole hmac crc w c := ⟨r, w, hc, .inr ⟨hr, rfl⟩⟩

theorem whole_address {c : Write} {a : Addr} {xor : Bool}
    (hc : w.write hmac crc c = some (w.encodeAddress c.attrType a xor))
    (hv : c.value hmac crc w.toWriter = (addressValue xor w.txnId.1 a).getD []) : Whole hmac crc w (some c) := by
  unfold encodeAddress at hc
  cases ha : addressValue xor w.txnId.1 a with
  | none =>
    rw [ha] at hc
    exact whole_refused hc (by decide)
  | some v =>
    rw [ha] at hc hv
    have hlen : v.length < 65536 := by
      rw [length_addressValue w.txnId.2 ha]
      cases a <;> simp [Addr.size]
    refine whole_short ?_ ?_
    · rw [hv]
      exact hc
    · rw [hv]
      exact hlen

theorem whole_username (remote loc : CStr) : Whole hmac crc w (some (.username remote loc)) := by
  by_cases h : 256 < (remote.bytes ++ 58 :: loc.bytes).length
  · exact whole_refused (if_pos h) (by decide)
  · exact whole_short (if_neg h) (by
      show (remote.bytes ++ 58 :: loc.bytes).length < 65536
      omega)

theorem whole_errorCode_iff (code : ℕ) (reason : Option CStr) :
    Whole hmac crc w (some (.errorCode code reason)) ↔ w.Clean (some (.errorCode code reason)) := by
  unfold Clean
  by_cases hcode : code < 300 ∨ 699 < code
  · refine iff_of_true (whole_refused (if_pos hcode) (by decide)) fun h => ?_
    omega
  have hlen : (Write.value hmac crc w.toWriter (.errorCode code reason)).length =
      4 + ((reason.map CStr.bytes).getD []).length := by
    show ((reason.map CStr.bytes).getD []).length + 1 + 1 + 1 + 1 = _
    omega
  have hin : 300 ≤ code ∧ code ≤ 699 := by omega
  by_cases hcheck : 256 < (4 + ((reason.map CStr.bytes).getD []).length) % 65536
  · exact iff_of_true (whole_refused ((if_neg hcode).trans (if_pos hcheck)) (by decide)) fun _ => .inr hcheck
  by_cases hover : 256 < 4 + ((reason.map CStr.bytes).getD []).length
  · refine iff_of_false ?_ fun h => ?_
    · rintro ⟨r, w', he, -⟩
      exact absurd (((if_neg hcode).trans ((if_neg hcheck).trans (if_pos hover))).symm.trans he) nofun
    · omega
  · refine iff_of_true (whole_short ?_ (by rw [hlen]; omega)) fun _ => .inl (by omega)
    rw [hlen, ← Nat.mod_eq_of_lt (show 4 + ((reason.map CStr.bytes).getD []).length < 65536 by omega)]
    exact (if_neg hcode).trans ((if_neg hcheck).trans (if_neg hover))

/-- **An attribute is written whole or not at all exactly where the call is clean.** -/
theorem whole_iff (hmac : Bytes → Bytes → Digest) (crc : Bytes → UInt32) (w : AttrWriter) (c : Option Write) :
    Whole hmac crc w c ↔ w.Clean c := by
  cases c with
  | none => exact iff_of_true (whole_refused rfl (by decide)) trivial
  | some c =>
    cases c with
    | xorMappedAddress a | mappedAddress a | xorPeerAddress a => exact iff_of_true (whole_address rfl rfl) trivial
    | username remote loc => exact iff_of_true (whole_username remote loc) trivial
    | realm s | nonce s | software s | data b => exact whole_raw_iff rfl
    | messageIntegrity key =>
      have hlen : (Write.value hmac crc w.toWriter (.messageIntegrity key)).length = 20 :=
        (hmac key (signedBytes w.toWriter 24)).2
      refine iff_of_true (whole_short ?_ (by rw [hlen]; decide)) trivial
      rw [hlen]
      rfl
    | errorCode code reason => exact whole_errorCode_iff code reason
    | useCandidate => exact iff_of_true (whole_short rfl (show 0 < 65536 by decide)) trivial
    | iceControlling t | iceControlled t => exact iff_of_true (whole_short rfl (show 8 < 65536 by decide)) trivial
    | _ => exact iff_of_true (whole_short rfl (show 4 < 65536 by decide)) trivial

def fresh : AttrWriter := ⟨.sendIndication, someId, List.replicate 16 0, 16, 0, by decide, by decide⟩

theorem toWriter_write_flag : ∃ w', fresh.write someHmac someCrc .useCandidate = some (.ok, w') ∧
    fresh.toWriter.write someHmac someCrc .useCandidate = some w'.toWriter := by
  have h : fresh.write someHmac someCrc .useCandidate = some (.ok, _) := rfl
  exact ⟨_, h, (toWriter_write h).trans (if_pos rfl)⟩

/-- Of 65536 bytes of data none is written, and `xErrno_Ok` is returned. -/
theorem not_whole_longData : ¬ Whole someHmac someCrc fresh (some (.data (List.replicate 65536 0))) := by
  have hlen : (List.replicate 65536 (0 : UInt8)).length = 65536 := length_replicate
  rintro ⟨r, w', he, h⟩
  have he : fresh.attrWriteRaw attrData (List.replicate 65536 0) (List.replicate 65536 (0 : UInt8)).length = (r, w') :=
    some.inj he
  rw [hlen] at he
  have hok : (fresh.attrWriteRaw attrData (List.replicate 65536 0) 65536).1 = .ok :=
    congrArg Prod.fst (dif_neg (show ¬ fresh.cap < fresh.pos + (4 + align4 (65536 % 65536)) by decide))
  obtain rfl : .ok = r := hok.symm.trans (congrArg Prod.fst he)
  rcases h with ⟨-, c, hc, ha⟩ | ⟨hr, -⟩
  · obtain rfl := some.inj hc
    exact absurd (hlen ▸ ha.short) (lt_irrefl _)
  · exact hr rfl

end AttrWriter

end Libx.Ice
