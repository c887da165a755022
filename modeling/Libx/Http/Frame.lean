import Libx.Buf.IOBuffer
import Libx.Core.Incremental
import Libx.Ice.Writer

/-!
# Libx.Http.Frame — WebSocket frames

ws_frame.c: the parser, which goes through the parts of a frame and takes up where it left off, and the encoder.
-/

namespace Libx.Http

open Libx.Core (Call)
open Libx.Agent (Bytes)
open Libx.Buf (IOBuffer Readable)
open Libx.Ice (readBE writeU16 writeU64)

def opcodeContinuation : UInt8 := 0x0
def opcodeText : UInt8 := 0x1
def opcodeBinary : UInt8 := 0x2
def opcodeClose : UInt8 := 0x8
def opcodePing : UInt8 := 0x9
def opcodePong : UInt8 := 0xA

/-- `is_control_opcode`. -/
def isControlOpcode (opcode : UInt8) : Bool := 0x8 ≤ opcode

/-- A masking key. -/
structure MaskingKey where
  k0 : UInt8 := 0
  k1 : UInt8 := 0
  k2 : UInt8 := 0
  k3 : UInt8 := 0
  deriving DecidableEq

def MaskingKey.bytes (key : MaskingKey) : Bytes := [key.k0, key.k1, key.k2, key.k3]

/-- `unmask_payload`: in blocks of four, and the rest. -/
def unmask (key : MaskingKey) : Bytes → Bytes
  | a :: b :: c :: d :: data => (a ^^^ key.k0) :: (b ^^^ key.k1) :: (c ^^^ key.k2) :: (d ^^^ key.k3) :: unmask key data
  | data => data.zipWith (· ^^^ ·) key.bytes

/-- `xWsFrame`; `payload` is what was read into the buffer so far, which `payload_read` counts. -/
structure Frame where
  fin : Bool := false
  rsv1 : Bool := false
  opcode : UInt8 := 0
  masked : Bool := false
  maskingKey : MaskingKey := {}
  payloadLen : ℕ := 0
  payload : Option Bytes := none
  deriving DecidableEq

/-- `xWsFrameParserPhase`. -/
inductive Phase
  | header
  | len16
  | len64
  | mask
  | payload
  deriving DecidableEq

/-- `xWsFrameParser`. -/
structure FrameParser where
  phase : Phase := .header
  frame : Frame := {}
  expectMasked : Bool
  allowRsv1 : Bool := false
  deriving DecidableEq

/-- `xWsFrameResult`. -/
inductive FrameResult
  | ok
  | needMore
  | error
  deriving DecidableEq

/-- The result of a call that ends in a part, with the parser and the buffer. -/
abbrev Part (β : Type) := Option FrameResult × FrameParser × β

def Part.andThen {β : Type} (x : Part β) (next : FrameParser → β → Part β) : Part β :=
  match x.1 with
  | none => next x.2.1 x.2.2
  | some _ => x

namespace FrameParser

variable {β : Type} [Readable β]

/-- `xWsFrameParserReset`. -/
def reset (p : FrameParser) : FrameParser := { p with phase := .header, frame := {} }

def afterLen (p : FrameParser) : FrameParser := { p with phase := if p.frame.masked then .mask else .payload }

def start (h0 h1 : UInt8) (f : Frame) : Frame :=
  { f with
    fin := h0 >>> 7 &&& 1 ≠ 0
    rsv1 := h0 >>> 6 &&& 1 ≠ 0
    opcode := h0 &&& 0x0F
    masked := h1 >>> 7 &&& 1 ≠ 0 }

/-- The seven bits of the length: a length, or which one follows. -/
def takeLen7 (len7 : ℕ) (p : FrameParser) : FrameParser :=
  if len7 < 126 then afterLen { p with frame := { p.frame with payloadLen := len7 } }
  else if len7 = 126 then { p with phase := .len16 }
  else { p with phase := .len64 }

/-- The first two bytes are wrong, before they are consumed. -/
def Malformed (h0 : UInt8) (p : FrameParser) : Prop :=
  h0 &&& 0x30 ≠ 0 ∨
    p.frame.rsv1 = true ∧ (p.allowRsv1 = false ∨ isControlOpcode p.frame.opcode = true) ∨
    p.frame.masked ≠ p.expectMasked

instance (h0 : UInt8) (p : FrameParser) : Decidable (Malformed h0 p) := inferInstanceAs (Decidable (_ ∨ _))

def header (p : FrameParser) (io : β) : Part β :=
  if p.phase ≠ .header then (none, p, io)
  else
    match Readable.peek 2 io with
    | some [h0, h1] =>
      let p := { p with frame := start h0 h1 p.frame }
      if Malformed h0 p then (some .error, p, io)
      else
        let len7 := (h1 &&& 0x7F).toNat
        let io := Readable.consume 2 io
        let p := takeLen7 len7 p
        if isControlOpcode p.frame.opcode ∧ (¬ p.frame.fin ∨ 126 ≤ len7) then (some .error, p, io) else (none, p, io)
    | _ => (some .needMore, p, io)

def len16 (p : FrameParser) (io : β) : Part β :=
  if p.phase ≠ .len16 then (none, p, io)
  else
    match Readable.peek 2 io with
    | none => (some .needMore, p, io)
    | some buf =>
      (none, afterLen { p with frame := { p.frame with payloadLen := readBE buf } }, Readable.consume 2 io)

def len64 (p : FrameParser) (io : β) : Part β :=
  if p.phase ≠ .len64 then (none, p, io)
  else
    match Readable.peek 8 io with
    | none => (some .needMore, p, io)
    | some buf =>
      let p := { p with frame := { p.frame with payloadLen := readBE buf } }
      if 9223372036854775808 ≤ p.frame.payloadLen then (some .error, p, io)
      else (none, afterLen p, Readable.consume 8 io)

def mask (p : FrameParser) (io : β) : Part β :=
  if p.phase ≠ .mask then (none, p, io)
  else
    match Readable.peek 4 io with
    | some [k0, k1, k2, k3] =>
      (none, { p with frame := { p.frame with maskingKey := ⟨k0, k1, k2, k3⟩ }, phase := .payload },
        Readable.consume 4 io)
    | _ => (some .needMore, p, io)

def done (p : FrameParser) (io : β) : Part β :=
  if isControlOpcode p.frame.opcode ∧ 125 < p.frame.payloadLen then
    (some .error, { p with frame := { p.frame with payload := none } }, io)
  else (some .ok, p, io)

def maxPayload : ℕ := 16 * 1024 * 1024

/-- The bytes of the payload, of which `got` are there. -/
def readPayload (got : Bytes) (p : FrameParser) (io : β) : Part β :=
  let take := min (Readable.len io) (p.frame.payloadLen - got.length)
  let (data, io) := if 0 < take then Readable.read take io else ([], io)
  let got := got ++ data
  if got.length < p.frame.payloadLen then
    (some .needMore, { p with frame := { p.frame with payload := some got } }, io)
  else
    done { p with frame := { p.frame with
      payload := some (if p.frame.masked then unmask p.frame.maskingKey got else got) } } io

def payload (p : FrameParser) (io : β) : Part β :=
  if p.phase ≠ .payload then (some .needMore, p, io)
  else if p.frame.payloadLen = 0 then done { p with frame := { p.frame with payload := none } } io
  else
    match p.frame.payload with
    | none => if maxPayload < p.frame.payloadLen then (some .error, p, io) else readPayload [] p io
    | some got => readPayload got p io

/-- `xWsFrameParse`, with memory for the payload. -/
def parse (p : FrameParser) (io : β) : Part β :=
  ((((header p io).andThen len16).andThen len64).andThen mask).andThen payload

def next (p : FrameParser) (io : β) : Call FrameParser Frame β :=
  match parse p io with
  | (some .ok, p, io) => .item p.frame p.reset io
  | (some .error, _, _) => .fail
  | (_, p, io) => .more p io

end FrameParser

/-! ### The encoder -/

/-- The first bytes of a frame, up to the masking key. -/
def frameHeader (fin rsv1 : Bool) (opcode : UInt8) (payloadLen : ℕ) (masked : Bool) : Bytes :=
  let maskBit : UInt8 := if masked then 0x80 else 0x00
  ((if fin then 0x80 else 0x00) ||| (if rsv1 then 0x40 else 0x00) ||| (opcode &&& 0x0F)) ::
    if payloadLen < 126 then [maskBit ||| UInt8.ofNat payloadLen]
    else if payloadLen ≤ 0xFFFF then (maskBit ||| 126) :: writeU16 payloadLen
    else (maskBit ||| 127) :: writeU64 payloadLen

/-- `xWsFrameEncodeEx`; `key` is what `ws_random_bytes` gives. -/
def encodeEx (fin rsv1 : Bool) (opcode : UInt8) (payload : Bytes) (masked : Bool) (key : MaskingKey) (io : IOBuffer) :
    IOBuffer :=
  let io := io.append (frameHeader fin rsv1 opcode payload.length masked ++ if masked then key.bytes else [])
  if payload.length = 0 then io else io.append (if masked then unmask key payload else payload)

/-- `xWsFrameEncode`. -/
def encode (fin : Bool) (opcode : UInt8) (payload : Bytes) (masked : Bool) (key : MaskingKey) (io : IOBuffer) : IOBuffer :=
  encodeEx fin false opcode payload masked key io

/-- `xWsFrameEncodeClose`. -/
def encodeClose (code : UInt16) (reason : Bytes) (masked : Bool) (key : MaskingKey) (io : IOBuffer) : IOBuffer :=
  encode true opcodeClose ((code >>> 8).toUInt8 :: code.toUInt8 :: reason) masked key io

end Libx.Http
