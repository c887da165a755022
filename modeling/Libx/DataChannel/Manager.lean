import Libx.Turn.Client

/-!
# Libx.DataChannel.Manager — data channels over one association

datachannel.c: the DCEP messages, the manager of the channels, and two managers that are connected.
-/

namespace Libx.DataChannel

open Libx.Agent (Bytes)
open Libx.Ice (readBE writeU16 writeU32)
open Libx.Turn (Text textOfBytes)

/-- `XDC_MAX_CHANNELS`. -/
def maxChannels : ℕ := 64

/-- `XSCTP_PPID_DCEP`, `_STRING`, `_BINARY`, `_STRING_EMPTY` and `_BINARY_EMPTY`. -/
def ppidDcep : ℕ := 50
def ppidString : ℕ := 51
def ppidBinary : ℕ := 53
def ppidStringEmpty : ℕ := 56
def ppidBinaryEmpty : ℕ := 57

/-- `XDCEP_DATA_CHANNEL_OPEN` and `XDCEP_DATA_CHANNEL_ACK`. -/
def dcepOpen : UInt8 := 3
def dcepAck : UInt8 := 2

/-- `xDataChannelConf`, without the callbacks. -/
structure ChannelConf where
  label : Text 255
  protocol : Text 255
  ordered : Bool
  maxRetransmits : UInt16
  maxPacketLifeTime : UInt16

/-! ### DCEP -/

def channelType (conf : ChannelConf) : UInt8 :=
  if conf.maxRetransmits ≠ 0 then if conf.ordered then 0x01 else 0x81
  else if conf.maxPacketLifeTime ≠ 0 then if conf.ordered then 0x02 else 0x82
  else if conf.ordered then 0x00 else 0x80

/-- `dcep_encode_open` into a buffer of `cap` bytes. -/
def dcepEncodeOpen (conf : ChannelConf) (cap : ℕ) : Option Bytes :=
  let label := conf.label.1.bytes
  let protocol := conf.protocol.1.bytes
  let reliability :=
    if conf.maxRetransmits ≠ 0 then conf.maxRetransmits.toNat
    else if conf.maxPacketLifeTime ≠ 0 then conf.maxPacketLifeTime.toNat else 0
  if cap < 12 + label.length + protocol.length then none
  else
    some (dcepOpen :: channelType conf :: 0 :: 0 :: (writeU32 reliability ++
      (writeU16 label.length ++ (writeU16 protocol.length ++ (label ++ protocol)))))

/-- `dcep_decode_open`. -/
def dcepDecodeOpen (data : Bytes) : Option ChannelConf :=
  if data.length < 12 then none
  else if data.headD 0 ≠ dcepOpen then none
  else
    let type := data.getD 1 0
    let reliability := readBE ((data.drop 4).take 4)
    let labelLen := readBE ((data.drop 8).take 2)
    let protoLen := readBE ((data.drop 10).take 2)
    if data.length < 12 + labelLen + protoLen then none
    else
      some
        { label := textOfBytes 255 (if labelLen < 256 then (data.drop 12).take labelLen else [])
          protocol := textOfBytes 255 (if protoLen < 256 then (data.drop (12 + labelLen)).take protoLen else [])
          ordered := type &&& 0x80 = 0
          maxRetransmits := if type &&& 0x7F = 0x01 then UInt16.ofNat reliability else 0
          maxPacketLifeTime := if type &&& 0x7F = 0x02 then UInt16.ofNat reliability else 0 }

/-! ### One end -/

/-- `xDataChannelState`. -/
inductive ChannelState
  | connecting | open | closing | closed
  deriving DecidableEq, Repr

/-- `xDataChannel_`; `id` is the number of the OPEN that it is from. -/
structure Channel where
  id : ℕ
  streamId : ℕ
  state : ChannelState := .connecting
  conf : ChannelConf

/-- `xDataChannelMgr_`. -/
structure Manager where
  channels : List Channel := []
  nextStreamId : ℕ := 0

/-- `xDataChannelMsgType`. -/
inductive MsgType
  | string | binary
  deriving DecidableEq, Repr

/-- A message of the application, on the channel of an OPEN. -/
structure Msg where
  id : ℕ
  type : MsgType
  data : Bytes
  deriving DecidableEq

/-- What goes from one end to the other: a message of SCTP (with the number of the OPEN that the channel of its
sender is from), the reset of a stream, and what reports to the resetting end that it is done. -/
inductive Wire
  | message (streamId ppid : ℕ) (data : Bytes) (id : ℕ)
  | reset (streamId : ℕ)
  | resetDone (streamId : ℕ)

/-- The payload protocol identifier of a message that is sent. -/
def ppidOf (type : MsgType) (data : Bytes) : ℕ :=
  match type with
  | .string => if data.length = 0 then ppidStringEmpty else ppidString
  | .binary => if data.length = 0 then ppidBinaryEmpty else ppidBinary

/-- The type of a message, by its payload protocol identifier. -/
def typeOf (ppid : ℕ) : MsgType := if ppid = ppidString ∨ ppid = ppidStringEmpty then .string else .binary

namespace Manager

/-- `find_channel`: the place of the first channel of a stream. -/
def findChannel (streamId : ℕ) (m : Manager) : Option ℕ := m.channels.findIdx? (fun c => c.streamId = streamId)

/-- `add_channel`. -/
def addChannel (c : Channel) (m : Manager) : Option Manager :=
  if maxChannels ≤ m.channels.length then none else some { m with channels := m.channels ++ [c] }

def setState (i : ℕ) (state : ChannelState) (m : Manager) : Manager :=
  { m with channels := m.channels.modify i (fun c => { c with state }) }

/-- `xDataChannelCreate`; `ok` tells whether `xSctpTransportSend` succeeds. -/
def create (id : ℕ) (conf : ChannelConf) (ok : Bool) (m : Manager) : Manager × List Wire :=
  let sid := m.nextStreamId
  let m := { m with nextStreamId := (sid + 2) % 65536 }
  match m.addChannel { id, streamId := sid, conf } with
  | none => (m, [])
  | some m' =>
    match dcepEncodeOpen conf 512 with
    | none => (m, [])
    | some buf => if ok then (m', [.message sid ppidDcep buf id]) else (m, [])

/-- `xDataChannelMgrOnData`: what is sent back, and what `on_message` is called with. -/
def onData (sid ppid : ℕ) (data : Bytes) (id : ℕ) (ok : Bool) (m : Manager) : Manager × List Wire × List Msg :=
  if ppid = ppidDcep then
    if data.head? = some dcepOpen then
      match dcepDecodeOpen data with
      | none => (m, [], [])
      | some conf =>
        match m.addChannel { id, streamId := sid, conf } with
        | none => (m, [], [])
        | some m' =>
          (m'.setState m.channels.length .open, if ok then [.message sid ppidDcep [dcepAck] id] else [], [])
    else if data.head? = some dcepAck then
      match m.findChannel sid with
      | none => (m, [], [])
      | some i =>
        if (m.channels[i]?).map Channel.state = some .connecting then (m.setState i .open, [], []) else (m, [], [])
    else (m, [], [])
  else
    match (m.findChannel sid).bind (fun i => m.channels[i]?) with
    | none => (m, [], [])
    | some c => if c.state = .open then (m, [], [⟨c.id, typeOf ppid, data⟩]) else (m, [], [])

/-- `xDataChannelMgrOnStreamClose`. -/
def onStreamClose (sid : ℕ) (m : Manager) : Manager :=
  match m.findChannel sid with
  | none => m
  | some i => m.setState i .closed

/-- `xDataChannelSendString` and `xDataChannelSendBinary` on the channel at a place. -/
def send (i : ℕ) (type : MsgType) (data : Bytes) (ok : Bool) (m : Manager) : List Wire × List Msg :=
  match m.channels[i]? with
  | none => ([], [])
  | some c =>
    if c.state ≠ .open then ([], [])
    else if ok then ([.message c.streamId (ppidOf type data) data c.id], [⟨c.id, type, data⟩])
    else ([], [])

/-- `xDataChannelClose` of the channel at a place; `ok` tells whether `xSctpTransportCloseStream` succeeds. -/
def close (i : ℕ) (ok : Bool) (m : Manager) : Manager × List Wire :=
  match m.channels[i]? with
  | none => (m, [])
  | some c => if c.state = .closed then (m, []) else (m.setState i .closing, if ok then [.reset c.streamId] else [])

end Manager

/-! ### Two ends -/

/-- One end, with the messages that `xDataChannelSend*` returned `xErrno_Ok` for and those that `on_message` was
called with, oldest first. -/
structure End where
  mgr : Manager := {}
  sent : List Msg := []
  delivered : List Msg := []

/-- Two ends, what is under way in either direction, oldest first, and how many OPENs there were. -/
structure World where
  a : End := {}
  b : End := {}
  ab : List Wire := []
  ba : List Wire := []
  opens : ℕ := 0

/-- What the application does at an end, or that the oldest of what is under way to it arrives. -/
inductive Act
  | create (conf : ChannelConf) (ok : Bool)
  | send (i : ℕ) (type : MsgType) (data : Bytes) (ok : Bool)
  | close (i : ℕ) (ok : Bool)
  | receive (ok : Bool)

namespace World

def swap (w : World) : World := { w with a := w.b, b := w.a, ab := w.ba, ba := w.ab }

def arrive (x : Wire) (ok : Bool) (w : World) : World :=
  match x with
  | .message sid ppid data id =>
    let (mgr, back, msgs) := w.a.mgr.onData sid ppid data id ok
    { w with a := { w.a with mgr, delivered := w.a.delivered ++ msgs }, ab := w.ab ++ back }
  | .reset sid =>
    { w with a := { w.a with mgr := w.a.mgr.onStreamClose sid }, ab := w.ab ++ [.resetDone sid] }
  | .resetDone sid => { w with a := { w.a with mgr := w.a.mgr.onStreamClose sid } }

def act (x : Act) (w : World) : Option World :=
  match x with
  | .create conf ok =>
    let (mgr, out) := w.a.mgr.create w.opens conf ok
    some { w with a := { w.a with mgr }, ab := w.ab ++ out, opens := w.opens + 1 }
  | .send i type data ok =>
    let (out, msgs) := w.a.mgr.send i type data ok
    some { w with a := { w.a with sent := w.a.sent ++ msgs }, ab := w.ab ++ out }
  | .close i ok =>
    let (mgr, out) := w.a.mgr.close i ok
    some { w with a := { w.a with mgr }, ab := w.ab ++ out }
  | .receive ok =>
    match w.ba with
    | [] => none
    | x :: ba => some ({ w with ba }.arrive x ok)

def step (w : World) : Bool × Act → Option World
  | (false, x) => w.act x
  | (true, x) => (w.swap.act x).map swap

end World

end Libx.DataChannel
