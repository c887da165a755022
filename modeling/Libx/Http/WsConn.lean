import Libx.Http.Connect
import Libx.Http.FrameExact

/-!
# Libx.Http.WsConn — a WebSocket connection

ws.c for a connection after its handshake: frames come in and are assembled to messages, frames go out, and the two
sides close.  The buffers are their bytes (`Sending.content_encode`, `FrameParser.next_map`).
-/

namespace Libx.Http

open Libx.Agent (Bytes)

deriving instance DecidableEq for Sending

/-- `xWsCloseState`. -/
inductive CloseState
  | open
  | closeSent
  | closeReceived
  | closed
  deriving DecidableEq

def closeGoingAwayCode : UInt16 := 1001
def closeProtocolErrCode : UInt16 := 1002
def closeNoStatusCode : UInt16 := 1005
def closeAbnormalCode : UInt16 := 1006

/-- What is called, and what the peer's frames brought about: `on_message`, `on_close`, a Close frame, a frame that
violates the protocol. -/
inductive WsNote
  | message (text : Bool) (payload : Bytes)
  | closed (code : UInt16) (reason : Bytes)
  | peerClose
  | violation
  deriving DecidableEq

/-- A call of `xWsSend` or `xWsClose`. -/
inductive UserCall
  | send (text : Bool) (payload : Bytes)
  | close (code : UInt16)
  deriving DecidableEq

/-- What is outside: the `n`-th `writev`, the key of the `n`-th frame, what `on_message` calls after all that was noted,
and the two streams of zlib. -/
structure WsEnv (D I : Type) where
  writev : ℕ → WriteResult
  key : ℕ → MaskingKey := fun _ => {}
  onMessage : List WsNote → List UserCall := fun _ => []
  compress : D → Bytes → Option Bytes × D
  decompress : I → Bytes → Option Bytes × I

/-- The streams of `xWsDeflateCtx`. -/
structure DeflateCtx (D I : Type) where
  deflate : D
  inflate : I
  deriving DecidableEq

/-- `xWsConn_`; `idleTimer`: the timer is set.  `received` is what came behind the handshake and what was read, `wire` what
was written; `queued` are the frames that were encoded, `writes` counts the calls of `writev`. -/
structure WsConn (D I : Type) where
  isClient : Bool
  hasIdleTimeout : Bool := false
  deflateCtx : Option (DeflateCtx D I) := none
  parser : FrameParser
  readBuf : Bytes := []
  writeBuf : Bytes := []
  fragBuf : Bytes := []
  fragOpcode : UInt8 := 0
  inFragment : Bool := false
  fragCompressed : Bool := false
  closeState : CloseState := .open
  closeCode : UInt16 := 0
  closeReason : Bytes := []
  idleTimer : Bool := false
  writing : Bool := false
  destroyed : Bool := false
  received : Bytes := []
  wire : Bytes := []
  queued : List Sending := []
  writes : ℕ := 0
  log : List WsNote := []

/-- How a drain of the socket ends. -/
inductive ReadEnd
  | again
  | eof
  | error
  deriving DecidableEq

/-- An event, with what is read until the drain ends. -/
structure WsEvent where
  timeout : Bool := false
  write : Bool := false
  read : Option (Bytes × ReadEnd) := none
  deriving DecidableEq

/-- What happens to a connection. -/
inductive WsInput
  | event (e : WsEvent)
  | timer
  | user (call : UserCall)
  | serverDestroy
  deriving DecidableEq

/-- What a data frame comes to: more fragments, a message, an error. -/
inductive Assembled (D I : Type)
  | pending (c : WsConn D I)
  | message (opcode : UInt8) (payload : Bytes) (c : WsConn D I)
  | violation (c : WsConn D I)

def Assembled.conn {D I : Type} : Assembled D I → WsConn D I
  | pending c | message _ _ c | violation c => c

def dataOpcode (text : Bool) : UInt8 := if text then opcodeText else opcodeBinary

/-- The status code and the reason of a Close frame. -/
def closeStatus : Bytes → UInt16 × Bytes
  | b0 :: b1 :: reason => (b0.toUInt16 <<< 8 ||| b1.toUInt16, reason)
  | _ => (closeNoStatusCode, [])

namespace WsConn

variable {D I : Type} (env : WsEnv D I)

/-- `xWsConnDestroy`. -/
def destroy (c : WsConn D I) : WsConn D I := { c with destroyed := true, idleTimer := false }

def note (n : WsNote) (c : WsConn D I) : WsConn D I := { c with log := c.log ++ [n] }

/-- A frame into the write buffer, with the next key. -/
def queue (i : MaskingKey → Sending) (c : WsConn D I) : WsConn D I :=
  { c with
    writeBuf := c.writeBuf ++ (i (env.key c.queued.length)).wire c.isClient
    queued := c.queued ++ [i (env.key c.queued.length)] }

/-- `ws_fire_close`; what `on_close` calls finds the connection closed and does nothing. -/
def fireClose (code : UInt16) (reason : Bytes) (c : WsConn D I) : WsConn D I :=
  if c.closeState = .closed then c else note (.closed code reason) { c with closeState := .closed }

/-- The bytes that a `writev` took are gone. -/
def written (n : ℕ) (c : WsConn D I) : WsConn D I :=
  { c with wire := c.wire ++ c.writeBuf.take n, writeBuf := c.writeBuf.drop n }

/-- `ws_try_flush`. -/
def tryFlush (c : WsConn D I) : WsConn D I :=
  if c.writeBuf = [] then c
  else
    let d := { c with writes := c.writes + 1 }
    match env.writev c.writes with
    | .again => { d with writing := true }
    | .error => d.fireClose closeAbnormalCode []
    | .wrote n =>
      let d := d.written n
      if d.writeBuf ≠ [] then { d with writing := true }
      else
        let d := { d with writing := false }
        if d.closeState = .closeReceived then d.fireClose d.closeCode d.closeReason else d

/-- `xWsConnClose`. -/
def connClose (code : UInt16) (reason : Bytes) (c : WsConn D I) : WsConn D I :=
  if c.closeState ≠ .open then c
  else
    let c := { c with closeState := .closeSent, closeCode := code }
    { (c.queue env (.close code reason)).tryFlush env with idleTimer := true }

/-- A frame with FIN, and what the socket takes of it. -/
def sendFrame (rsv1 : Bool) (opcode : UInt8) (payload : Bytes) (c : WsConn D I) : WsConn D I :=
  (c.queue env (.frame true rsv1 opcode payload)).tryFlush env

/-- `xWsSend`: compressed, if that works. -/
def send (text : Bool) (payload : Bytes) (c : WsConn D I) : WsConn D I :=
  if c.closeState ≠ .open then c
  else
    match c.deflateCtx with
    | some ctx =>
      if payload = [] then c.sendFrame env false (dataOpcode text) payload
      else
        let out := env.compress ctx.deflate payload
        let c := { c with deflateCtx := some { ctx with deflate := out.2 } }
        match out.1 with
        | some compressed => c.sendFrame env true (dataOpcode text) compressed
        | none => c.sendFrame env false (dataOpcode text) payload
    | none => c.sendFrame env false (dataOpcode text) payload

def userCall (call : UserCall) (c : WsConn D I) : WsConn D I :=
  match call with
  | .send text payload => c.send env text payload
  | .close code => c.connClose env code []

/-! ### Frames -/

/-- `xWsConnClose` after a frame that violates the protocol. -/
def violate (c : WsConn D I) : WsConn D I := (c.note .violation).connClose env closeProtocolErrCode []

/-- `on_message`, and what it calls. -/
def deliver (opcode : UInt8) (payload : Bytes) (c : WsConn D I) : WsConn D I :=
  let c := c.note (.message (opcode = opcodeText) payload)
  (env.onMessage c.log).foldl (fun c call => c.userCall env call) c

/-- A whole message, inflated if it is compressed. -/
def inflate (compressed : Bool) (opcode : UInt8) (payload : Bytes) (c : WsConn D I) : Assembled D I :=
  match compressed, c.deflateCtx with
  | true, some ctx =>
    let out := env.decompress ctx.inflate payload
    let c := { c with deflateCtx := some { ctx with inflate := out.2 } }
    match out.1 with
    | some decompressed => .message opcode decompressed c
    | none => .violation c
  | _, _ => .message opcode payload c

/-- The part of `ws_process_frame` for data frames, and for opcodes it does not know. -/
def assemble (f : Frame) (c : WsConn D I) : Assembled D I :=
  let payload := f.payload.getD []
  if f.opcode = opcodeText ∨ f.opcode = opcodeBinary then
    if c.inFragment then .violation c
    else if f.fin then c.inflate env f.rsv1 f.opcode payload
    else
      .pending { c with inFragment := true, fragOpcode := f.opcode, fragCompressed := f.rsv1, fragBuf := payload }
  else if f.opcode = opcodeContinuation then
    if ¬ c.inFragment then .violation c
    else if f.fin then
      let assembled := c.fragBuf ++ payload
      let c := { c with inFragment := false, fragBuf := [] }
      -- here an empty message is not inflated
      if c.fragCompressed ∧ c.deflateCtx.isSome ∧ assembled = [] then .violation c
      else c.inflate env c.fragCompressed c.fragOpcode assembled
    else .pending { c with fragBuf := c.fragBuf ++ payload }
  else .violation c

variable {env} in
theorem conn_inflate (compressed : Bool) (opcode : UInt8) (payload : Bytes) (c : WsConn D I) :
    ∃ ctx, (c.inflate env compressed opcode payload).conn = { c with deflateCtx := ctx } := by
  unfold inflate
  cases compressed with
  | false => exact ⟨_, rfl⟩
  | true =>
    cases hctx : c.deflateCtx with
    | none => exact ⟨c.deflateCtx, rfl⟩
    | some ctx =>
      dsimp only
      cases (env.decompress ctx.inflate payload).1 with
      | none | some decompressed => exact ⟨_, rfl⟩

variable {env} in
theorem conn_assemble (f : Frame) (c : WsConn D I) :
    ∃ ctx buf op started compressed, (c.assemble env f).conn =
      { c with
        deflateCtx := ctx
        fragBuf := buf
        fragOpcode := op
        inFragment := started
        fragCompressed := compressed } := by
  unfold assemble
  dsimp only
  by_cases hdata : f.opcode = opcodeText ∨ f.opcode = opcodeBinary
  · rw [if_pos hdata]
    split_ifs
    · exact ⟨_, _, _, _, _, rfl⟩
    · obtain ⟨ctx, hconn⟩ := conn_inflate f.rsv1 f.opcode (f.payload.getD []) c
      exact ⟨ctx, _, _, _, _, hconn⟩
    · exact ⟨_, _, _, _, _, rfl⟩
  · rw [if_neg hdata]
    split_ifs
    · exact ⟨_, _, _, _, _, rfl⟩
    · obtain ⟨ctx, hconn⟩ := conn_inflate c.fragCompressed c.fragOpcode (c.fragBuf ++ f.payload.getD [])
        { c with inFragment := false, fragBuf := [] }
      exact ⟨ctx, _, _, _, _, hconn⟩
    all_goals exact ⟨_, _, _, _, _, rfl⟩

/-- The part of `ws_process_frame` for a Close frame. -/
def peerClose (payload : Bytes) (c : WsConn D I) : WsConn D I :=
  let s := closeStatus payload
  let c := c.note .peerClose
  match c.closeState with
  | .open =>
    let c := { c with closeState := .closeReceived, closeCode := s.1, closeReason := s.2 }
    (c.queue env (.close s.1 s.2)).tryFlush env
  | .closeSent => c.fireClose s.1 s.2
  | _ => c

/-- `ws_process_frame`. -/
def processFrame (f : Frame) (c : WsConn D I) : WsConn D I :=
  let payload := f.payload.getD []
  if f.opcode = opcodePing then c.sendFrame env false opcodePong payload
  else if f.opcode = opcodePong then c
  else if f.opcode = opcodeClose then c.peerClose env payload
  else
    match c.assemble env f with
    | .pending c => c
    | .message opcode payload c => c.deliver env opcode payload
    | .violation c => c.violate env

def parsed (p : FrameParser) (io : Bytes) (c : WsConn D I) : WsConn D I := { c with parser := p, readBuf := io }

/-- The loop of `ws_on_event` over the frames; nothing in `ws_process_frame` looks at the parser. -/
def parseLoop : ℕ → WsConn D I → WsConn D I
  | 0, c => c
  | n + 1, c =>
    if c.closeState = .closed then c
    else
      match c.parser.parse c.readBuf with
      | (some .ok, p, io) => parseLoop n ((c.parsed p.reset io).processFrame env p.frame)
      | (some .error, p, io) => (c.parsed p io).violate env
      | (_, p, io) => c.parsed p io

/-! ### Events -/

/-- `ws_reset_idle_timer`. -/
def resetIdleTimer (c : WsConn D I) : WsConn D I := { c with idleTimer := c.idleTimer || c.hasIdleTimeout }

/-- `ws_idle_timeout`. -/
def idleTimeout (c : WsConn D I) : WsConn D I :=
  let c := { c with idleTimer := false }
  if c.closeState = .open then c.connClose env closeGoingAwayCode []
  else (c.fireClose c.closeCode []).destroy

/-- The end of `ws_on_event`. -/
def reap (c : WsConn D I) : WsConn D I := if c.closeState = .closed then c.destroy else c

def gather (data : Bytes) (c : WsConn D I) : WsConn D I :=
  { c with readBuf := c.readBuf ++ data, received := c.received ++ data }

/-- The readable part of `ws_on_event`: all is read before a frame is looked at. -/
def onReadable (data : Bytes) (finish : ReadEnd) (c : WsConn D I) : WsConn D I :=
  let c := c.gather data
  match finish with
  | .again => (parseLoop env (c.readBuf.length + 1) c.resetIdleTimer).reap
  | .eof | .error => (c.fireClose closeAbnormalCode []).destroy

def onWritable (c : WsConn D I) : WsConn D I := (c.tryFlush env).reap

/-- `ws_on_event`. -/
def onEvent (e : WsEvent) (c : WsConn D I) : WsConn D I :=
  if c.closeState = .closed then c.destroy
  else if e.timeout then c.idleTimeout env
  else
    let c := if e.write then c.onWritable env else c
    if c.destroyed then c
    else
      match e.read with
      | some (data, finish) => c.onReadable env data finish
      | none => c

/-- A connection that was just handed over, with what came behind the handshake; `timeout_ms` is 0 or not. -/
def handOver (isClient hasIdleTimeout : Bool) (ctx : Option (DeflateCtx D I)) (rest : Bytes) : WsConn D I where
  isClient
  hasIdleTimeout
  deflateCtx := ctx
  parser := { expectMasked := !isClient, allowRsv1 := ctx.isSome }
  readBuf := rest
  received := rest
  idleTimer := hasIdleTimeout

/-- A step: an event of the socket, the timer, a call from outside a callback of this connection, and for a server's
connection the end of the server. -/
def step (c : WsConn D I) : WsInput → Option (WsConn D I)
  | .event e => if c.destroyed then none else some (c.onEvent env e)
  | .timer => if c.idleTimer then some (c.idleTimeout env) else none
  | .user call => if c.destroyed then none else some (c.userCall env call)
  | .serverDestroy =>
    if c.destroyed ∨ c.isClient then none else some (c.connClose env closeGoingAwayCode []).destroy

end WsConn

end Libx.Http
