import Libx.Core.Run
import Libx.Ice.Gather
import Libx.Ice.Writer

/-!
# Libx.Turn.Client — the TURN client

turn_client.c and turn_channel.c: allocation, refresh, permissions, channels, and data both ways.
-/

namespace Libx.Turn

open Libx.Agent (Bytes CStr cstr)
open Libx.Ice
open Libx.Ice.Agent (addressOf lifetimeOf errorCodeOf)

/-- A string in a buffer of `n + 1` bytes. -/
abbrev Text (n : ℕ) := {s : CStr // s.bytes.length ≤ n}

/-- The string that a buffer holds after `n` bytes at most of `b` and a NUL. -/
def textOfBytes (n : ℕ) (b : Bytes) : Text n :=
  ⟨cstr (b.take n), (List.takeWhile_sublist _).length_le.trans (List.length_take_le _ _)⟩

/-- `xTurnConfig`. -/
structure Config where
  server : SockAddr
  username : Text 127
  password : Text 127

/-- `xTurnChannel`. -/
structure Channel where
  number : ℕ
  peer : Addr
  bound : Bool
  deriving DecidableEq, Repr

/-- `on_complete` of a transaction, with what its request was about. -/
inductive Ctx
  | allocate | refresh
  | permission (peer : Addr)
  | channelBind (number : ℕ) (peer : Addr)
  deriving DecidableEq, Repr

/-- What the client does. -/
inductive Event
  /-- `send_fn` is called. -/
  | datagram (b : Bytes)
  /-- `xTurnClientAllocate` starts an allocation. -/
  | allocate
  /-- `on_allocated`, and the response it is called for. -/
  | allocated (relayed : Addr) (msg : StunMsg)
  /-- `on_failed`. -/
  | failed
  /-- `on_data` for a Data indication. -/
  | data (payload : Bytes) (peer : Addr) (msg : StunMsg)
  /-- `on_data` for ChannelData. -/
  | channelData (number : ℕ) (payload : Bytes) (peer : Addr)
  /-- A success response to a ChannelBind. -/
  | bound (number : ℕ) (peer : Addr)
  /-- A ChannelBind fails or times out, or the binding lapses at the server. -/
  | unbound (number : ℕ)

/-- `xTurnClient`, with its history, newest first. -/
structure Client where
  config : Config
  state : TurnState := .idle
  txnMgr : TxnMgr Ctx Bytes := []
  relayedAddr : Addr := .unspec
  mappedAddr : Addr := .unspec
  lifetime : ℕ := 0
  refreshTimer : Bool := false
  realm : Text 127 := textOfBytes 127 []
  nonce : Text 255 := textOfBytes 255 []
  hasCredentials : Bool := false
  permissions : List Addr := []
  channels : List Channel := []
  nextChannel : ℕ := 0x4000
  log : List Event := []

/-- `XTURN_MAX_PERMISSIONS` and `XTURN_MAX_CHANNELS`. -/
def maxPermissions : ℕ := 16
def maxChannels : ℕ := 8

/-- `XTURN_CHANNEL_MIN` and `XTURN_CHANNEL_MAX`. -/
def channelMin : ℕ := 0x4000
def channelMax : ℕ := 0x7FFF

/-- What is outside the client: the hash functions, and in each step the random identifier, what `send_fn`
returns, and what is on the stack where `peer_addr` is not set. -/
structure Env where
  hmac : Bytes → Bytes → Digest
  md5 : Bytes → Bytes
  crc : Bytes → UInt32
  txnId : TxnId
  sendOk : Bool
  stray : Addr

/-! ### Requests -/

/-- `turn_compute_key`. -/
def computeKey (md5 : Bytes → Bytes) (config : Config) (realm : CStr) : Bytes :=
  if realm.bytes.length = 0 then config.password.1.bytes
  else md5 (config.username.1.bytes ++ 58 :: (realm.bytes ++ 58 :: config.password.1.bytes))

def tryWrite (e : Env) (w : Writer) (c : Write) : Writer := (w.write e.hmac e.crc c).getD w

/-- The four kinds of request. -/
inductive Kind
  | allocate
  | refresh
  | createPermission (peer : SockAddr)
  | channelBind (number : ℕ) (peer : SockAddr)

def Kind.type : Kind → MsgType
  | .allocate => .allocateRequest
  | .refresh => .refreshRequest
  | .createPermission _ => .createPermissionRequest
  | .channelBind .. => .channelBindRequest

/-- `on_complete` of a request. -/
def Kind.ctx : Kind → Ctx
  | .allocate => .allocate
  | .refresh => .refresh
  | .createPermission peer => .permission peer.1
  | .channelBind number peer => .channelBind number peer.1

/-- The attributes of a request in front of the credentials. -/
def Kind.attrs (lifetime : ℕ) : Kind → List Write
  | .allocate => [.requestedTransport 0x11000000]
  | .refresh => [.lifetime (UInt32.ofNat lifetime)]
  | .createPermission peer => [.xorPeerAddress peer]
  | .channelBind number peer => [.channelNumber (UInt16.ofNat number), .xorPeerAddress peer]

/-- The credentials, written when the client has them. -/
def credentials (md5 : Bytes → Bytes) (config : Config) (realm nonce : CStr) : List Write :=
  [.username config.username.1 (cstr []), .realm realm, .nonce nonce,
    .messageIntegrity (computeKey md5 config realm)]

/-- The attributes of a request, with the credentials or without. -/
def Client.requestOf (e : Env) (auth : Bool) (kind : Kind) (c : Client) : List Write :=
  kind.attrs c.lifetime ++ if auth then credentials e.md5 c.config c.realm.1 c.nonce.1 else []

/-- A message built in a buffer of `cap` bytes. -/
def buildMessage (e : Env) (type : MsgType) (txnId : TxnId) (cap : ℕ) (ws : List Write) : Bytes :=
  let w := ws.foldl (tryWrite e) ⟨type, txnId, [], cap - headerSize⟩
  header type txnId w.buf.length ++ w.buf

/-- The datagram of a request, built in `msg_buf[512]`. -/
def Client.buildRequest (e : Env) (auth : Bool) (kind : Kind) (c : Client) : Bytes :=
  buildMessage e kind.type e.txnId 512 (c.requestOf e auth kind)

namespace Client

def emit (ev : Event) (c : Client) : Client := { c with log := ev :: c.log }

/-- `xStunTxnMgrSendRaw` of a request that was built: `send_fn` is called when there is a place for the
transaction. -/
def sendRequest (e : Env) (auth : Bool) (kind : Kind) (c : Client) : Client :=
  let msg := c.buildRequest e auth kind
  if txnMax ≤ c.txnMgr.length ∨ c.config.server.1.family = .unspec then c
  else
    let txn : Txn Ctx Bytes :=
      { txnId := e.txnId.1, sock := none, dest := c.config.server.1, ctx := kind.ctx, msg := msg }
    { c.emit (.datagram msg) with txnMgr := if e.sendOk then c.txnMgr ++ [txn] else c.txnMgr }

/-- `schedule_refresh`. -/
def scheduleRefresh (c : Client) : Client := { c with refreshTimer := c.lifetime ≠ 0 }

/-- `on_failed` with the state of the client before it. -/
def fail (c : Client) : Client := { c with state := .failed }.emit .failed

/-- `refresh_timer_cb`. -/
def refreshTimerCb (e : Env) (c : Client) : Client :=
  let c := { c with refreshTimer := false }
  if c.state ≠ .allocated then c else c.sendRequest e c.hasCredentials .refresh

/-- `on_refresh_response`. -/
def onRefreshResponse (msg : Option StunMsg) (c : Client) : Client :=
  match msg with
  | none => c.fail
  | some m => if m.isError then c.fail else { c with lifetime := lifetimeOf m c.lifetime }.scheduleRefresh

/-- The text that the last attribute of a type leaves in a buffer. -/
def textOf (m : StunMsg) (type : ℕ) {n : ℕ} (old : Text n) : Text n :=
  m.attrs.foldl (fun s a => if a.type = type then textOfBytes n a.value else s) old

/-- `on_allocate_response`. -/
def onAllocateResponse (e : Env) (msg : Option StunMsg) (c : Client) : Client :=
  match msg with
  | none => c.fail
  | some m =>
    if m.isError then
      let c := { c with realm := textOf m attrRealm c.realm, nonce := textOf m attrNonce c.nonce }
      if errorCodeOf m = 401 ∧ c.hasCredentials = false then
        { c with hasCredentials := true }.sendRequest e true .allocate
      else c.fail
    else
      let c :=
        { c with
          relayedAddr := addressOf m attrXorRelayedAddress c.relayedAddr
          mappedAddr := addressOf m attrXorMappedAddress c.mappedAddr
          lifetime := lifetimeOf m c.lifetime }
      if (m.first attrXorRelayedAddress).isNone then c.fail
      else ({ c with state := .allocated }.scheduleRefresh).emit (.allocated c.relayedAddr m)

/-- `on_channel_bind_response`, which changes nothing. -/
def onChannelBindResponse (number : ℕ) (peer : Addr) (msg : Option StunMsg) (c : Client) : Client :=
  match msg with
  | none => c.emit (.unbound number)
  | some m => if m.isError then c.emit (.unbound number) else c.emit (.bound number peer)

def complete (e : Env) (ctx : Ctx) (msg : Option StunMsg) (c : Client) : Client :=
  match ctx with
  | .allocate => c.onAllocateResponse e msg
  | .refresh => c.onRefreshResponse msg
  | .permission _ => c
  | .channelBind number peer => c.onChannelBindResponse number peer msg

/-! ### The host's calls -/

/-- `xTurnClientAllocate`. -/
def allocate (e : Env) (c : Client) : Client :=
  if c.state ≠ .idle then c
  else ({ c with state := .allocating }.emit .allocate).sendRequest e false .allocate

/-- `xTurnClientCreatePermission`. -/
def createPermission (e : Env) (peer : SockAddr) (c : Client) : Client :=
  if c.state ≠ .allocated then c
  else if maxPermissions ≤ c.permissions.length then c
  else
    let permissions := if peer.1.family = .unspec then c.permissions else c.permissions ++ [peer.1]
    { c with permissions }.sendRequest e c.hasCredentials (.createPermission peer)

/-- `xTurnClientChannelBind`. -/
def channelBind (e : Env) (peer : SockAddr) (c : Client) : Client :=
  if c.state ≠ .allocated then c
  else if maxChannels ≤ c.channels.length then c
  else if channelMax < c.nextChannel then c
  else
    let ch := c.nextChannel
    { c with
      nextChannel := ch + 1
      channels := c.channels ++ [Channel.mk ch peer.1 true] }.sendRequest e c.hasCredentials (.channelBind ch peer)

/-- `find_channel_for_peer`. -/
def findChannelForPeer (peer : Addr) (c : Client) : Option ℕ :=
  (c.channels.find? (fun ch => ch.bound && sockaddrEqual ch.peer peer)).map Channel.number

end Client

/-- `xTurnChannelDataEncode`; `dataLen` is 16 bits wide. -/
def channelDataEncode (channel : ℕ) (data : Bytes) (dataLen cap : ℕ) : Option Bytes :=
  let dataLen := dataLen % 65536
  if cap < 4 + align4 dataLen then none
  else
    some (writeU16 channel ++ (writeU16 dataLen ++
      (data.take dataLen ++ List.replicate (align4 dataLen - dataLen) 0)))

/-- `xTurnChannelDataDecode`. -/
def channelDataDecode (buf : Bytes) : Option (ℕ × Bytes) :=
  if buf.length < 4 then none
  else
    let channel := readBE (buf.take 2)
    let dataLen := readBE ((buf.drop 2).take 2)
    if channel < channelMin ∨ channelMax < channel then none
    else if buf.length < 4 + dataLen then none
    else some (channel, (buf.drop 4).take dataLen)

namespace Client

def zeroTxnId : TxnId := ⟨List.replicate 12 0, rfl⟩

/-- The Send indication of `xTurnClientSendData`, built in `msg_buf[1280]`. -/
def sendIndication (e : Env) (peer : SockAddr) (data : Bytes) : Bytes :=
  buildMessage e .sendIndication zeroTxnId 1280 [.xorPeerAddress peer, .data data]

/-- `xTurnClientSendData`: the datagram handed to `send_fn`, if one is. -/
def sendData (e : Env) (peer : SockAddr) (data : Bytes) (c : Client) : Option Bytes :=
  if c.state ≠ .allocated then none
  else
    match c.findChannelForPeer peer.1 with
    | some ch => channelDataEncode ch data data.length 1280
    | none => some (sendIndication e peer data)

/-! ### What arrives -/

/-- The response handling of `xTurnClientOnMessage`. -/
def onResponse (e : Env) (m : StunMsg) (c : Client) : Client :=
  match (c.txnMgr.find m.txnId).bind (fun i => (c.txnMgr[i]?).map (fun t => (i, t))) with
  | none => c
  | some (i, t) => { c with txnMgr := c.txnMgr.free i }.complete e t.ctx (some m)

/-- `xTurnClientOnMessage`. -/
def onMessage (e : Env) (m : StunMsg) (c : Client) : Client :=
  if m.isSuccess ∨ m.isError then c.onResponse e m
  else if m.type = MsgType.dataIndication.toNat then
    match m.last attrXorPeerAddress, m.last attrData with
    | some _, some a => c.emit (.data a.value (addressOf m attrXorPeerAddress e.stray) m)
    | _, _ => c
  else c

/-- `xTurnClientOnChannelData`. -/
def onChannelData (buf : Bytes) (c : Client) : Client :=
  match channelDataDecode buf with
  | none => c
  | some (channel, payload) =>
    match c.channels.find? (fun ch => ch.number = channel && ch.bound) with
    | none => c
    | some ch => c.emit (.channelData channel payload ch.peer)

/-- `txn_retransmit` of the transaction at `i`. -/
def onRetransmit (e : Env) (i : ℕ) (c : Client) : Option Client :=
  match c.txnMgr.retransmit i with
  | (_, .idle) => none
  | (mgr, .timeout t) => some ({ c with txnMgr := mgr }.complete e t.ctx none)
  | (mgr, .again t) => some ({ c with txnMgr := mgr }.emit (.datagram t.msg))

/-- The loop of `xStunTxnMgrCancelAll`, whose callbacks send nothing; every turn empties a place. -/
def cancelAll (e : Env) : ℕ → Client → Client
  | 0, c => c
  | n + 1, c =>
    match c.txnMgr with
    | [] => c
    | t :: _ =>
      let c := if t.cancelled then c else c.complete e t.ctx none
      cancelAll e n { c with txnMgr := c.txnMgr.free 0 }

/-- `xTurnClientDestroy`. -/
def destroy (e : Env) (c : Client) : Client :=
  { ({ c with refreshTimer := false } : Client).cancelAll e c.txnMgr.length with state := .idle }

/-- The host's calls, what arrives, the loop's timers, and the server's clock. -/
inductive Input
  | allocate
  | createPermission (peer : SockAddr)
  | channelBind (peer : SockAddr)
  | sendData (peer : SockAddr) (data : Bytes)
  | message (m : StunMsg)
  | channelData (buf : Bytes)
  | retransmit (i : ℕ)
  | refresh
  | destroy
  /-- The server drops a channel binding. -/
  | lapse (number : ℕ)

def step (c : Client) : Env × Input → Option Client
  | (e, .allocate) => some (c.allocate e)
  | (e, .createPermission peer) => some (c.createPermission e peer)
  | (e, .channelBind peer) => some (c.channelBind e peer)
  | (e, .sendData peer data) =>
    some (match c.sendData e peer data with
      | none => c
      | some d => c.emit (.datagram d))
  | (e, .message m) => some (c.onMessage e m)
  | (_, .channelData buf) => some (c.onChannelData buf)
  | (e, .retransmit i) => c.onRetransmit e i
  | (e, .refresh) => if c.refreshTimer then some (c.refreshTimerCb e) else none
  | (e, .destroy) => some (c.destroy e)
  | (_, .lapse number) => some (c.emit (.unbound number))

/-- `xTurnClientInit`. -/
def init (config : Config) : Client := { config }

end Client

end Libx.Turn
