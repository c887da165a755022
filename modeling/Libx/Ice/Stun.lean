import Libx.Agent.Message
import Libx.Ice.Candidate

/-!
# Libx.Ice.Stun — STUN messages as they arrive

The decoder of stun_msg.c, the attribute iterator of stun_attr.c and the readers of the attributes the
agent looks at.
-/

namespace Libx.Ice

open Libx.Agent (Bytes)

/-- `xReadU16BE` and `xReadU32BE`: a big-endian number. -/
def readBE (b : Bytes) : ℕ := b.foldl (fun n c => 256 * n + c.toNat) 0

/-- `xWriteU16BE`. -/
def writeU16 (n : ℕ) : Bytes := [UInt8.ofNat (n / 256), UInt8.ofNat n]

/-- `XSTUN_HEADER_SIZE`. -/
def headerSize : ℕ := 20

/-- The bytes of `XSTUN_MAGIC_COOKIE`. -/
def magicCookie : Bytes := [0x21, 0x12, 0xA4, 0x42]

/-- The attribute types of `xStunAttrType` that the agent and its TURN client read. -/
def attrUsername : ℕ := 0x0006
def attrMessageIntegrity : ℕ := 0x0008
def attrErrorCode : ℕ := 0x0009
def attrXorMappedAddress : ℕ := 0x0020
def attrUseCandidate : ℕ := 0x0025
def attrLifetime : ℕ := 0x000D
def attrXorRelayedAddress : ℕ := 0x0016

/-- `xStunAttr`; `offset` is where its header stands behind the message's. -/
structure Attr where
  type : ℕ
  value : Bytes
  offset : ℕ
  deriving DecidableEq, Repr

/-- `xStunMsg`, with the attributes `xStunAttrIterNext` yields. -/
structure StunMsg where
  type : ℕ
  txnId : Bytes
  attrs : List Attr
  deriving DecidableEq, Repr

/-- `XSTUN_ALIGN4`. -/
def align4 (n : ℕ) : ℕ := (n + 3) / 4 * 4

/-- The loop around `xStunAttrIterNext`; every attribute takes four bytes at least. -/
def iterAttrs : ℕ → ℕ → Bytes → List Attr
  | 0, _, _ => []
  | n + 1, offset, b =>
    if b.length < 4 then []
    else
      let length := readBE ((b.drop 2).take 2)
      if b.length < 4 + length then []
      else
        ⟨readBE (b.take 2), (b.drop 4).take length, offset⟩ ::
          iterAttrs n (offset + (4 + align4 length)) (b.drop (4 + align4 length))

/-- `xStunMsgDecode`. -/
def decode (buf : Bytes) : Option StunMsg :=
  if buf.length < headerSize then none
  else if ((buf.headD 0) &&& 0xC0) ≠ 0 then none
  else if (buf.drop 4).take 4 ≠ magicCookie then none
  else
    let length := readBE ((buf.drop 2).take 2)
    if buf.length < headerSize + length then none
    else some ⟨readBE (buf.take 2), (buf.drop 8).take 12, iterAttrs length 0 ((buf.drop headerSize).take length)⟩

namespace StunMsg

/-- `XSTUN_MSG_CLASS`. -/
def cls (msg : StunMsg) : ℕ := ((msg.type &&& 0x0010) >>> 4) ||| ((msg.type &&& 0x0100) >>> 7)

/-- `xStunMsgIsRequest`. -/
def isRequest (msg : StunMsg) : Bool := msg.cls = 0

/-- `xStunMsgIsIndication`. -/
def isIndication (msg : StunMsg) : Bool := msg.cls = 1

/-- `xStunMsgIsSuccessResponse`. -/
def isSuccess (msg : StunMsg) : Bool := msg.cls = 2

/-- `xStunMsgIsErrorResponse`. -/
def isError (msg : StunMsg) : Bool := msg.cls = 3

def first (msg : StunMsg) (type : ℕ) : Option Attr := msg.attrs.find? (fun a => a.type = type)

def last (msg : StunMsg) (type : ℕ) : Option Attr := (msg.attrs.filter (fun a => a.type = type)).getLast?

end StunMsg

/-- The code of an ERROR-CODE attribute, by `xStunAttrDecodeErrorCode`. -/
def Attr.errorCode (a : Attr) : Option ℕ :=
  if a.value.length < 4 then none
  else some (((a.value.getD 2 0) &&& 0x07).toNat * 100 + (a.value.getD 3 0).toNat)

/-- `err_code` of `on_check_response`. -/
def StunMsg.errCode (msg : StunMsg) : ℕ := ((msg.first attrErrorCode).bind Attr.errorCode).getD 0

/-- `decode_address` of a XOR-ed address. -/
def decodeXorAddress (txnId : Bytes) (a : Attr) : Option Addr :=
  let v := a.value
  if v.length < 4 then none
  else
    let port := readBE ((v.drop 2).take 2) ^^^ 0x2112
    if v.getD 1 0 = 1 then
      if v.length < 8 then none
      else some (.v4 (readBE (List.zipWith (· ^^^ ·) ((v.drop 4).take 4) magicCookie)) port)
    else if v.getD 1 0 = 2 then
      if v.length < 20 then none
      else some (.v6 (readBE (List.zipWith (· ^^^ ·) ((v.drop 4).take 16) (magicCookie ++ txnId))) port)
    else none

/-! ### MESSAGE-INTEGRITY -/

/-- What a MESSAGE-INTEGRITY at `offset` signs: the message before it, with the length of one that ends
behind it. -/
def macInput (raw : Bytes) (offset : ℕ) : Bytes :=
  raw.take 2 ++ writeU16 (offset + 24) ++ (raw.drop 4).take (headerSize + offset - 4)

/-- `xStunAttrVerifyMessageIntegrity`. -/
def verifyMessageIntegrity (hmac : Bytes → Bytes → Bytes) (raw : Bytes) (a : Attr) (key : Bytes) : Bool :=
  a.value.length = 20 && hmac key (macInput raw a.offset) = a.value

end Libx.Ice
