import Libx.Agent.Jsonl
import Libx.Ice.Stun

/-!
# Libx.Ice.Writer — STUN messages as they are built

The encoder of stun_msg.c, the attribute writers of stun_attr.c and the readers that undo them.
-/

namespace Libx.Ice

open Libx.Agent (Bytes CStr bytes)
open List

/-! ### Messages -/

/-- `xStunMsgType`. -/
inductive MsgType
  | bindingRequest | bindingIndication | bindingResponse | bindingErrorResponse
  | allocateRequest | allocateResponse | allocateErrorResponse
  | refreshRequest | refreshResponse | refreshErrorResponse
  | sendIndication | dataIndication
  | createPermissionRequest | createPermissionResponse | createPermissionErrorResponse
  | channelBindRequest | channelBindResponse | channelBindErrorResponse
  deriving DecidableEq, Repr

def MsgType.toNat : MsgType → ℕ
  | .bindingRequest => 0x0001
  | .bindingIndication => 0x0011
  | .bindingResponse => 0x0101
  | .bindingErrorResponse => 0x0111
  | .allocateRequest => 0x0003
  | .allocateResponse => 0x0103
  | .allocateErrorResponse => 0x0113
  | .refreshRequest => 0x0004
  | .refreshResponse => 0x0104
  | .refreshErrorResponse => 0x0114
  | .sendIndication => 0x0016
  | .dataIndication => 0x0017
  | .createPermissionRequest => 0x0008
  | .createPermissionResponse => 0x0108
  | .createPermissionErrorResponse => 0x0118
  | .channelBindRequest => 0x0009
  | .channelBindResponse => 0x0109
  | .channelBindErrorResponse => 0x0119

/-- A transaction identifier: `XSTUN_TXN_ID_SIZE` bytes. -/
abbrev TxnId := {b : Bytes // b.length = 12}

/-- `xWriteU32BE`. -/
def writeU32 (n : ℕ) : Bytes := writeU16 (n / 65536) ++ writeU16 n

/-- `xWriteU64BE`. -/
def writeU64 (n : ℕ) : Bytes := writeU32 (n / 4294967296) ++ writeU32 n

theorem readBE_cons (c : UInt8) (b : Bytes) : readBE (c :: b) = c.toNat * 256 ^ b.length + readBE b := by
  have h : ∀ (b : Bytes) (n : ℕ), b.foldl (fun n c => 256 * n + c.toNat) n = n * 256 ^ b.length + readBE b := by
    intro b
    induction b with
    | nil =>
      intro n
      simp [readBE]
    | cons d b ih =>
      intro n
      rw [readBE, foldl_cons, foldl_cons, ih, ih (256 * 0 + d.toNat), length_cons]
      ring
  rw [readBE, foldl_cons, h]
  ring

theorem readBE_append (a b : Bytes) : readBE (a ++ b) = readBE a * 256 ^ b.length + readBE b := by
  induction a with
  | nil => simp [readBE]
  | cons c a ih =>
    rw [cons_append, readBE_cons, readBE_cons, ih, length_append]
    ring

@[simp] theorem length_writeU16 (n : ℕ) : (writeU16 n).length = 2 := rfl

@[simp] theorem length_writeU32 (n : ℕ) : (writeU32 n).length = 4 := rfl

@[simp] theorem length_writeU64 (n : ℕ) : (writeU64 n).length = 8 := rfl

theorem readBE_writeU16 (n : ℕ) : readBE (writeU16 n) = n % 65536 := by
  rw [writeU16, readBE_cons, readBE_cons]
  simp only [UInt8.toNat_ofNat', length_cons, length_nil, readBE, foldl_nil]
  omega

theorem readBE_writeU32 (n : ℕ) : readBE (writeU32 n) = n % 4294967296 := by
  rw [writeU32, readBE_append, readBE_writeU16, readBE_writeU16, length_writeU16]
  omega

theorem readBE_writeU64 (n : ℕ) : readBE (writeU64 n) = n % 18446744073709551616 := by
  rw [writeU64, readBE_append, readBE_writeU32, readBE_writeU32, length_writeU32]
  omega

/-- The header `xStunMsgEncode` writes for `attrsLen` bytes of attributes. -/
def header (type : MsgType) (txnId : TxnId) (attrsLen : ℕ) : Bytes :=
  writeU16 type.toNat ++ writeU16 attrsLen ++ magicCookie ++ txnId.1

/-- `xStunMsgEncode` of a message whose `attrs_len`, 16 bits wide, was set to the length of `attrs`. -/
def encode (type : MsgType) (txnId : TxnId) (attrs : Bytes) (bufLen : ℕ) : Option Bytes :=
  let attrsLen := attrs.length % 65536
  if bufLen < headerSize + attrsLen then none
  else some (header type txnId attrsLen ++ attrs.take attrsLen)

/-! ### Writing attributes -/

/-- An address the fields of `struct sockaddr` can hold. -/
def Addr.Fits : Addr → Prop
  | .v4 ip port => ip < 4294967296 ∧ port < 65536
  | .v6 ip port => ip < 340282366920938463463374607431768211456 ∧ port < 65536
  | .unspec => True

instance : DecidablePred Addr.Fits := fun a => by
  cases a <;> unfold Addr.Fits <;> infer_instance

/-- `struct sockaddr_storage`. -/
abbrev SockAddr := {a : Addr // a.Fits}

/-- A SHA-1 digest: `XSTUN_SHA1_DIGEST_SIZE` bytes. -/
abbrev Digest := {b : Bytes // b.length = 20}

/-- `xStunAttrWriter`, and the header that `msg_buf` holds in front of what has been written. -/
structure Writer where
  type : MsgType
  txnId : TxnId
  buf : Bytes
  cap : ℕ

/-- The attribute types of `xStunAttrType` that are only written. -/
def attrMappedAddress : ℕ := 0x0001
def attrRealm : ℕ := 0x0014
def attrNonce : ℕ := 0x0015
def attrPriority : ℕ := 0x0024
def attrSoftware : ℕ := 0x8022
def attrFingerprint : ℕ := 0x8028
def attrIceControlled : ℕ := 0x8029
def attrIceControlling : ℕ := 0x802A
def attrChannelNumber : ℕ := 0x000C
def attrXorPeerAddress : ℕ := 0x0012
def attrData : ℕ := 0x0013
def attrRequestedTransport : ℕ := 0x0019

/-- The bytes of an attribute: type, length, value and zeros up to the next multiple of four. -/
def tlv (type : ℕ) (value : Bytes) : Bytes :=
  writeU16 type ++ (writeU16 value.length ++ (value ++ List.replicate (align4 value.length - value.length) 0))

/-- `attr_write_raw`; `valueLen` is 16 bits wide. -/
def attrWriteRaw (w : Writer) (type : ℕ) (value : Bytes) (valueLen : ℕ) : Option Writer :=
  let valueLen := valueLen % 65536
  if w.cap < w.buf.length + (4 + align4 valueLen) then none
  else some { w with buf := w.buf ++ tlv type (value.take valueLen) }

/-- The value `encode_address` builds. -/
def addressValue (xor : Bool) (txnId : Bytes) : Addr → Option Bytes
  | .v4 ip port =>
    some (0 :: 1 :: (writeU16 (if xor then port ^^^ 0x2112 else port) ++
      writeU32 (if xor then ip ^^^ 0x2112A442 else ip)))
  | .v6 ip port =>
    let bytes := writeU64 (ip / 18446744073709551616) ++ writeU64 ip
    some (0 :: 2 :: (writeU16 (if xor then port ^^^ 0x2112 else port) ++
      if xor then List.zipWith (· ^^^ ·) bytes (magicCookie ++ txnId) else bytes))
  | .unspec => none

/-- `encode_address`. -/
def encodeAddress (w : Writer) (type : ℕ) (a : Addr) (xor : Bool) (txnId : Bytes) : Option Writer :=
  match addressValue xor txnId a with
  | none => none
  | some value => attrWriteRaw w type value value.length

/-- What MESSAGE-INTEGRITY and FINGERPRINT are computed over: the message so far, with the length of one
that ends `n` bytes further on. -/
def signedBytes (w : Writer) (n : ℕ) : Bytes :=
  header w.type w.txnId (w.buf.length + n) ++ w.buf

/-- `XSTUN_FINGERPRINT_XOR`. -/
def fingerprintXor : ℕ := 0x5354554E

/-- A call of the `xStunAttrWrite*` family, with its arguments. -/
inductive Write
  | xorMappedAddress (a : SockAddr)
  | mappedAddress (a : SockAddr)
  | xorPeerAddress (a : SockAddr)
  | username (remoteUfrag localUfrag : CStr)
  | realm (s : CStr)
  | nonce (s : CStr)
  | software (s : CStr)
  | messageIntegrity (key : Bytes)
  | fingerprint
  | priority (n : UInt32)
  | useCandidate
  | iceControlling (tieBreaker : UInt64)
  | iceControlled (tieBreaker : UInt64)
  | lifetime (n : UInt32)
  | requestedTransport (n : UInt32)
  | channelNumber (n : UInt16)
  | data (b : Bytes)
  | errorCode (code : ℕ) (reason : Option CStr)

section Hash

variable (hmac : Bytes → Bytes → Digest) (crc : Bytes → UInt32)

/-- The `xStunAttrWrite*` functions.  The transaction identifier given to the XOR writers is the
message's own. -/
def Writer.write (w : Writer) : Write → Option Writer
  | .xorMappedAddress a => encodeAddress w attrXorMappedAddress a.1 true w.txnId.1
  | .mappedAddress a => encodeAddress w attrMappedAddress a.1 false w.txnId.1
  | .xorPeerAddress a => encodeAddress w attrXorPeerAddress a.1 true w.txnId.1
  | .username remote loc =>
    let value := remote.bytes ++ 58 :: loc.bytes
    -- `value[256]`
    if 256 < value.length then none else attrWriteRaw w attrUsername value value.length
  | .realm s => attrWriteRaw w attrRealm s.bytes s.bytes.length
  | .nonce s => attrWriteRaw w attrNonce s.bytes s.bytes.length
  | .software s => attrWriteRaw w attrSoftware s.bytes s.bytes.length
  | .messageIntegrity key =>
    let value := (hmac key (signedBytes w 24)).1
    attrWriteRaw w attrMessageIntegrity value 20
  | .fingerprint =>
    attrWriteRaw w attrFingerprint (writeU32 ((crc (signedBytes w 8)).toNat ^^^ fingerprintXor)) 4
  | .priority n => attrWriteRaw w attrPriority (writeU32 n.toNat) 4
  | .useCandidate => attrWriteRaw w attrUseCandidate [] 0
  | .iceControlling t => attrWriteRaw w attrIceControlling (writeU64 t.toNat) 8
  | .iceControlled t => attrWriteRaw w attrIceControlled (writeU64 t.toNat) 8
  | .lifetime n => attrWriteRaw w attrLifetime (writeU32 n.toNat) 4
  | .requestedTransport n => attrWriteRaw w attrRequestedTransport (writeU32 n.toNat) 4
  | .channelNumber n => attrWriteRaw w attrChannelNumber (writeU16 n.toNat ++ writeU16 0) 4
  | .data b => attrWriteRaw w attrData b b.length
  | .errorCode code reason =>
    let reason := (reason.map CStr.bytes).getD []
    if code < 300 ∨ 699 < code then none
    else
      -- `value_len` is 16 bits wide, and a reason that passes the check only by that overruns `value[256]`
      if 256 < (4 + reason.length) % 65536 ∨ 256 < 4 + reason.length then none
      else attrWriteRaw w attrErrorCode (0 :: 0 :: UInt8.ofNat (code / 100) :: UInt8.ofNat (code % 100) :: reason)
        (4 + reason.length)

/-- A sequence of writes, all of which return `xErrno_Ok`. -/
def Writer.writeAll (w : Writer) : List Write → Option Writer
  | [] => some w
  | c :: cs => (w.write hmac crc c).bind (fun w => w.writeAll cs)

end Hash

/-! ### Reading attributes -/

/-- `xStunAttrIter`. -/
structure Iter where
  data : Bytes
  pos : ℕ
  deriving DecidableEq

/-- `xStunAttrIterNext`. -/
def Iter.next (it : Iter) : Option (Attr × Iter) :=
  if it.data.length < it.pos + 4 then none
  else
    let length := readBE (((it.data.drop it.pos).drop 2).take 2)
    if it.data.length < it.pos + 4 + length then none
    else
      some (⟨readBE ((it.data.drop it.pos).take 2), ((it.data.drop it.pos).drop 4).take length, it.pos⟩,
        { it with pos := it.pos + (4 + align4 length) })

/-- `decode_address` of a plain address. -/
def decodeMappedAddress (a : Attr) : Option Addr :=
  let v := a.value
  if v.length < 4 then none
  else
    let port := readBE ((v.drop 2).take 2)
    if v.getD 1 0 = 1 then
      if v.length < 8 then none else some (.v4 (readBE ((v.drop 4).take 4)) port)
    else if v.getD 1 0 = 2 then
      if v.length < 20 then none else some (.v6 (readBE ((v.drop 4).take 16)) port)
    else none

/-- `xStunAttrDecodeErrorCode`, with the reason. -/
def decodeErrorCode (a : Attr) : Option (ℕ × Option Bytes) :=
  a.errorCode.map (fun code => (code, if 4 < a.value.length then some (a.value.drop 4) else none))

/-- `xStunAttrVerifyFingerprint`. -/
def verifyFingerprint (crc : Bytes → UInt32) (raw : Bytes) (a : Attr) : Bool :=
  a.value.length = 4 &&
    (crc (raw.take 2 ++ writeU16 (a.offset + 8) ++ (raw.drop 4).take (headerSize + a.offset - 4))).toNat ^^^
      fingerprintXor = readBE a.value

end Libx.Ice
