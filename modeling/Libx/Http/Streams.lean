import Libx.Core.Run

/-!
# Libx.Http.Streams — who owns the stream of an HTTP/2 request

proto_h2.c, and of server.c what is done with `conn->stream`.  A struct is known by its number, in the order of their
making; nghttp2 is the callbacks it makes, in any order that its streams allow.
-/

namespace Libx.Http

/-- Where `h2_on_data` is: within `mem_recv`, the first `session_send`, the loop, the dispatch of a stream, or the last
`session_send`. -/
inductive H2Phase
  | idle
  | receiving
  | sending
  | dispatching
  | handling (s : ℕ)
  | flushing
  | closed
  deriving DecidableEq

/-- `xHttpStream_`, what its life depends on. -/
structure H2Stream where
  id : ℕ := 0
  sent : Bool := false
  streaming : Bool := false
  closedByPeer : Bool := false

/-- The connection and `xHttpProtoH2`; then the structs that were freed, whose request is complete, that were
dispatched, and whose stream closed before. -/
structure H2Conn where
  phase : H2Phase := .idle
  streams : ℕ → H2Stream := fun _ => {}
  made : ℕ := 0
  userData : ℕ → Option ℕ := fun _ => none
  pending : List ℕ := []
  stream : Option ℕ := none
  keepAlive : Bool := true
  freed : List ℕ := []
  completed : List ℕ := []
  dispatched : List ℕ := []
  resets : List ℕ := []
  faulted : Bool := false

/-- `XHTTP_H2_MAX_PENDING_DISPATCH`. -/
def maxPendingDispatch : ℕ := 16

/-- What `h2_on_begin_headers_callback` gets of the two structs that it allocates. -/
inductive H2Memory
  | both
  | noStream
  | noData
  deriving DecidableEq

/-- `xHttpResponseSend`, `xHttpResponseWrite` and `xHttpResponseEnd`. -/
inductive WriterCall
  | send
  | write
  | finish
  deriving DecidableEq

namespace H2Conn

def use (c : H2Conn) (s : ℕ) : H2Conn := if s ∈ c.freed then { c with faulted := true } else c

def setStream (c : H2Conn) (s : ℕ) (x : H2Stream) : H2Conn := { c with streams := Function.update c.streams s x }

/-- `xHttpStreamDestroy`. -/
def destroy (c : H2Conn) (s : ℕ) : H2Conn := { c.use s with freed := c.freed ++ [s] }

/-! ### The callbacks of nghttp2 -/

/-- `h2_on_begin_headers_callback`, of a request. -/
def onBeginHeaders (c : H2Conn) (id : ℕ) : H2Memory → H2Conn
  | .noStream => c
  | .noData => { c.setStream c.made { id } with made := c.made + 1 }.destroy c.made
  | .both =>
    { c.setStream c.made { id } with
      made := c.made + 1, userData := Function.update c.userData id (some c.made), stream := some c.made }

/-- `h2_on_header_callback` and `h2_on_data_chunk_recv_callback`. -/
def onContent (c : H2Conn) (id : ℕ) : H2Conn :=
  match c.userData id with
  | none => c
  | some s => c.use s

/-- `h2_on_frame_recv_callback`, of a frame with END_STREAM. -/
def onFrameRecv (c : H2Conn) (id : ℕ) : H2Conn :=
  match c.userData id with
  | none => c
  | some s =>
    { c.use s with
      completed := c.completed ++ [s]
      pending := if c.pending.length < maxPendingDispatch then c.pending ++ [s] else c.pending }

/-- `h2_on_stream_close_callback`: the stream that the connection is at is left to `conn_after_response`. -/
def onStreamClose (c : H2Conn) (id : ℕ) : H2Conn :=
  match c.userData id with
  | none => c
  | some s =>
    let c' := c.use s
    let c' := if c.stream = some s then c'.setStream s { c.streams s with closedByPeer := true } else c'.destroy s
    { c' with
      userData := Function.update c.userData id none
      resets := if s ∈ c.dispatched then c.resets else c.resets ++ [s] }

/-! ### server.c -/

/-- The calls of the writer; a write to a stream that nghttp2 has closed fails. -/
def respond (c : H2Conn) (s : ℕ) (call : WriterCall) : H2Conn :=
  let x := c.streams s
  match call with
  | .send => if x.sent || x.streaming then c.use s else (c.use s).setStream s { x with sent := true }
  | .write =>
    if x.sent || (c.userData x.id).isNone then c.use s else (c.use s).setStream s { x with streaming := true }
  | .finish => if x.streaming && !x.sent then (c.use s).setStream s { x with sent := true } else c.use s

/-- `xHttpConnSendError`; without a stream it reads a null pointer. -/
def sendError (c : H2Conn) : H2Conn :=
  match c.stream with
  | none => { c with faulted := true }
  | some s => if (c.streams s).sent then { c.use s with keepAlive := false } else c.respond s .send

/-- `xHttpConnClose`: of the structs it destroys `conn->stream`. -/
def close (c : H2Conn) : H2Conn :=
  match c.stream with
  | none => { c with phase := .closed }
  | some s => { c.destroy s with phase := .closed, stream := none }

/-- `conn_reset_request_state`. -/
def resetRequestState (c : H2Conn) : H2Conn :=
  match c.stream with
  | none => c
  | some s => (c.use s).setStream s { c.streams s with sent := false, streaming := false }

/-- What is done once the write buffer is empty, if it is. -/
def afterFlush (c : H2Conn) (isEmpty : Bool) : H2Conn :=
  if isEmpty then if c.keepAlive then c.resetRequestState else c.close else c

/-- `conn_after_response`. -/
def afterResponse (c : H2Conn) (isEmpty : Bool) : H2Conn :=
  match c.stream with
  | some s =>
    if c.keepAlive then
      if (c.streams s).closedByPeer then { c.destroy s with stream := none } else c.use s
    else c.afterFlush isEmpty
  | none => c.afterFlush isEmpty

/-- The first of the pending streams is dispatched. -/
def dispatch (c : H2Conn) (s : ℕ) (rest : List ℕ) : H2Conn :=
  { c.use s with phase := .handling s, stream := some s, pending := rest, dispatched := c.dispatched ++ [s] }

/-- The end of `conn_dispatch_request`, after a handler or where there is none: what was not sent is, and the loop of
`h2_on_data` goes on with the connection. -/
def finish (c : H2Conn) (s : ℕ) (routed isEmpty : Bool) : H2Conn :=
  let c := if routed then (c.respond s .send).respond s .finish else c.sendError
  let c := c.afterResponse isEmpty
  if c.phase = .closed then { c with faulted := true } else { c with phase := .dispatching }

/-- The error response of `on_conn_event`. -/
def errorResponse (c : H2Conn) (isEmpty : Bool) : H2Conn :=
  let c := c.sendError.afterResponse isEmpty
  if c.phase = .closed then c else { c with phase := .idle }

/-- `conn_write_ready`; `on_conn_event` goes on with the connection. -/
def writeReady (c : H2Conn) (isEmpty : Bool) : H2Conn :=
  let c := c.afterFlush isEmpty
  if c.phase = .closed then { c with faulted := true } else c

/-- What happens next: a read and what nghttp2 reports of it, what the handlers do, whether nghttp2 succeeds; between the
reads, a response is flushed, memory lacks, or the connection ends. -/
inductive Act
  | read
  | beginHeaders (id : ℕ) (mem : H2Memory)
  | content (id : ℕ)
  | endStream (id : ℕ)
  | streamClose (id : ℕ)
  | received (ok isEmpty : Bool)
  | sent (ok isEmpty : Bool)
  | dispatch
  | respond (call : WriterCall)
  | finish (routed isEmpty : Bool)
  | served
  | flushed (ok isEmpty : Bool)
  | writeFails
  | writeReady (isEmpty : Bool)
  | noMemory (isEmpty : Bool)
  | close

/-- The session is within a call in which it may close a stream. -/
def InSession (c : H2Conn) : Prop :=
  match c.phase with
  | .receiving | .sending | .handling _ | .flushing => True
  | _ => False

instance (c : H2Conn) : Decidable c.InSession := by
  unfold InSession
  split <;> infer_instance

/-- One step.  nghttp2 opens no stream twice, and reports one END_STREAM of a stream. -/
def step (c : H2Conn) : Act → Option H2Conn
  | .read => if c.phase = .idle then some { c with phase := .receiving, pending := [] } else none
  | .beginHeaders id mem =>
    if c.phase = .receiving ∧ ∀ s < c.made, (c.streams s).id ≠ id then some (c.onBeginHeaders id mem) else none
  | .content id => if c.phase = .receiving then some (c.onContent id) else none
  | .endStream id =>
    if c.phase = .receiving ∧ ∀ s ∈ c.userData id, s ∉ c.completed then some (c.onFrameRecv id) else none
  | .streamClose id => if c.InSession then some (c.onStreamClose id) else none
  | .received ok isEmpty =>
    if c.phase = .receiving then some (if ok then { c with phase := .sending } else c.errorResponse isEmpty) else none
  | .sent ok isEmpty =>
    if c.phase = .sending then some (if ok then { c with phase := .dispatching } else c.errorResponse isEmpty) else none
  | .dispatch =>
    match c.phase, c.pending with
    | .dispatching, s :: rest => some (c.dispatch s rest)
    | _, _ => none
  | .respond call =>
    match c.phase with
    | .handling s => some (c.respond s call)
    | _ => none
  | .finish routed isEmpty =>
    match c.phase with
    | .handling s => some (c.finish s routed isEmpty)
    | _ => none
  | .served => if c.phase = .dispatching ∧ c.pending = [] then some { c with phase := .flushing } else none
  | .flushed ok isEmpty =>
    if c.phase = .flushing then some (if ok then { c with phase := .idle } else c.errorResponse isEmpty) else none
  | .writeFails => if c.phase = .closed then none else some { c with keepAlive := false }
  | .writeReady isEmpty => if c.phase = .idle then some (c.writeReady isEmpty) else none
  | .noMemory isEmpty => if c.phase = .idle then some (c.errorResponse isEmpty) else none
  | .close => if c.phase = .idle then some c.close else none

/-! ### The property -/

/-- Every request is served once, on a stream that is there. -/
structure Served (c : H2Conn) : Prop where
  safe : c.faulted = false
  once : c.dispatched.Nodup ∧ ∀ s ∈ c.dispatched, s ∈ c.completed
  all : c.phase = .idle ∨ c.phase = .closed → ∀ s ∈ c.completed, s ∈ c.dispatched ∨ s ∈ c.resets
  freedOnce : c.freed.Nodup ∧ ∀ s ∈ c.freed, s < c.made
  freedAll : c.phase = .closed → ∀ s < c.made, s ∈ c.freed

def waiting (c : H2Conn) : List ℕ := if c.phase = .idle ∨ c.phase = .closed then [] else c.pending

/-- `conn->stream` may be given another value: its stream is open, or is still to be dispatched. -/
def Replaceable (c : H2Conn) : Prop := ∀ s ∈ c.stream, (c.streams s).closedByPeer = true → s ∈ c.pending

/-- nghttp2 has no stream but `conn->stream`. -/
def Alone (c : H2Conn) : Prop := ∀ s < c.made, c.userData (c.streams s).id = some s → c.stream = some s

def ErrorCloses (c : H2Conn) (isEmpty : Bool) : Prop :=
  isEmpty = true ∧ (c.keepAlive = false ∨ ∃ s ∈ c.stream, (c.streams s).sent = true)

/-- There is a stream for an error response, and no other request that waits. -/
def Answerable (c : H2Conn) (isEmpty : Bool) : Prop :=
  c.stream.isSome ∧ (∀ s ∈ c.waiting, c.stream = some s ∧ (c.streams s).closedByPeer = true) ∧
    (c.ErrorCloses isEmpty → c.Alone)

/-- The steps that keep the streams: the list has room; a stream that closes is not in it, or is `conn->stream`, which is
not given another value before it is destroyed; an error has a stream to be sent on; and the connection ends between the
reads, with no other stream open. -/
def Clean (c : H2Conn) : Act → Prop
  | .beginHeaders _ .both => c.Replaceable
  | .endStream id => (c.userData id).isSome → c.pending.length < maxPendingDispatch
  | .streamClose id => ∀ s ∈ c.userData id, c.stream = some s ∨ s ∉ c.pending
  | .received ok isEmpty | .sent ok isEmpty | .flushed ok isEmpty => ok = true ∨ c.Answerable isEmpty
  | .dispatch => c.Replaceable
  | .finish routed isEmpty =>
    c.keepAlive = true ∧ (routed = true ∨ ∀ s ∈ c.stream, (c.streams s).sent = false) ∨ isEmpty = false
  | .writeReady isEmpty => c.keepAlive = true ∨ isEmpty = false
  | .noMemory isEmpty => c.Answerable isEmpty
  | .close => c.Alone
  | _ => True

instance (c : H2Conn) : Decidable c.Replaceable := inferInstanceAs (Decidable (∀ s ∈ c.stream, _ → s ∈ c.pending))

instance (c : H2Conn) : Decidable c.Alone := inferInstanceAs (Decidable (∀ s < c.made, _ → c.stream = some s))

instance (c : H2Conn) (isEmpty : Bool) : Decidable (c.ErrorCloses isEmpty) :=
  inferInstanceAs (Decidable (isEmpty = true ∧ (_ ∨ ∃ s ∈ c.stream, (c.streams s).sent = true)))

instance (c : H2Conn) (isEmpty : Bool) : Decidable (c.Answerable isEmpty) :=
  inferInstanceAs (Decidable (c.stream.isSome ∧ (∀ s ∈ c.waiting, _ ∧ _) ∧ (c.ErrorCloses isEmpty → c.Alone)))

instance (c : H2Conn) (a : Act) : Decidable (c.Clean a) := by
  cases a with
  | beginHeaders id mem => cases mem <;> unfold Clean <;> infer_instance
  | _ => unfold Clean; infer_instance

end H2Conn

end Libx.Http
