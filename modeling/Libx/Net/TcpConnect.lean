import Libx.Agent.Message
import Libx.Core.Life
import Libx.Core.Run

/-!
# Libx.Net.TcpConnect — an attempt to connect

tcp_connect.c: DNS, the connection, TLS, the timeout; and the end of a query in dns.c.
-/

namespace Libx.Net

open Libx.Core (Life Run)
open Libx.Agent (Errno)

/-- `xTcpConnectPhase_`. -/
inductive TcpPhase
  | dns
  | tcpConnect
  | tlsHandshake
  deriving DecidableEq

/-- Of `connect`. -/
inductive ConnectRc
  | immediate
  | inProgress
  | failed
  deriving DecidableEq

/-- `xTransportResult`. -/
inductive HandshakeRc
  | done
  | wantRead
  | wantWrite
  | error
  deriving DecidableEq

/-- `xTcpConnectConf` by whether `tls` and `tls_ctx` are there. -/
structure TcpConf where
  tls : Bool := false
  tlsCtx : Bool := false

/-- What the system and the other modules return while an event is handled: whether a query can still be
taken back, the socket, `connect`, the error of the socket, the transports and the TLS context, a handshake,
and whether the `xTcpConn` can be made. -/
structure TcpEnv where
  unstarted : Bool := true
  socketOk : Bool := true
  connect : ConnectRc := .inProgress
  soError : Bool := false
  plainOk : Bool := true
  ctxOk : Bool := true
  initOk : Bool := true
  handshake : HandshakeRc := .wantRead
  createOk : Bool := true

/-- An `xDnsResult`. -/
structure DnsAnswer where
  error : Errno := .ok
  hasAddrs : Bool := true

/-- `xTcpConnector_`.  `self` is the struct, `query` the request behind `dns_query`, which outlives it where it
is only flagged; `ctx` is the TLS context that the connector made.  `calls` are the codes its callback got (`ok`
comes with a connection), `returned` is what `xTcpConnect` returned, and `faulted` says that a freed connector or
a result that is not there was used. -/
structure TcpConnector where
  conf : TcpConf
  phase : TcpPhase := .dns
  self : Life := .unmade
  timer : Life := .unmade
  query : Life := .unmade
  asking : Bool := false
  cancelled : Bool := false
  result : Life := .unmade
  socket : Life := .unmade
  transport : Life := .unmade
  hasCtx : Bool := false
  ctx : Life := .unmade
  calls : List Errno := []
  returned : Errno := .ok
  faulted : Bool := false

namespace TcpConnector

/-- `xDnsCancel`: a query whose work has not started is taken back, another one is flagged. -/
def dnsCancel (env : TcpEnv) (c : TcpConnector) : TcpConnector :=
  if env.unstarted then { c with query := c.query.release } else { c with cancelled := true }

/-- `connector_destroy`. -/
def destroy (env : TcpEnv) (c : TcpConnector) : TcpConnector :=
  let c := { c with timer := c.timer.drop }
  let c := if c.asking then { c.dnsCancel env with asking := false } else c
  { c with
    result := c.result.drop
    transport := c.transport.drop
    socket := c.socket.drop
    ctx := c.ctx.drop
    self := c.self.release }

/-- `connector_fail`. -/
def fail (env : TcpEnv) (rc : Errno) (c : TcpConnector) : TcpConnector :=
  let c := c.destroy env
  { c with calls := c.calls ++ [rc] }

/-- `connector_succeed`. -/
def succeed (env : TcpEnv) (c : TcpConnector) : TcpConnector :=
  let c := { c with timer := c.timer.drop }
  if env.createOk then
    let c := destroy env { c with socket := c.socket.hand, transport := c.transport.hand }
    { c with calls := c.calls ++ [.ok] }
  else fail env .noMemory { c with transport := c.transport.drop, socket := c.socket.drop }

/-- One handshake, in `connector_do_tls_handshake` or taken up again. -/
def handshake (env : TcpEnv) (c : TcpConnector) : TcpConnector :=
  match env.handshake with
  | .done => c.succeed env
  | .wantRead | .wantWrite => c
  | .error => c.fail env .sysError

/-- `connector_do_tls_handshake` with the TLS context there. -/
def initTls (env : TcpEnv) (c : TcpConnector) : TcpConnector :=
  if !env.initOk then c.fail env .sysError
  else handshake env { c with transport := c.transport.make }

/-- `connector_do_tls_handshake`. -/
def doTlsHandshake (env : TcpEnv) (c : TcpConnector) : TcpConnector :=
  if c.hasCtx then c.initTls env
  else if c.conf.tlsCtx then initTls env { c with hasCtx := true }
  else if c.conf.tls then
    if !env.ctxOk then c.fail env .sysError else initTls env { c with hasCtx := true, ctx := c.ctx.make }
  else c.initTls env

def connected (env : TcpEnv) (c : TcpConnector) : TcpConnector :=
  if c.conf.tls || c.conf.tlsCtx then doTlsHandshake env { c with phase := .tlsHandshake }
  else if !env.plainOk then c.fail env .noMemory
  else succeed env { c with transport := c.transport.make }

/-- `connector_do_tcp_connect`. -/
def doTcpConnect (env : TcpEnv) (c : TcpConnector) : TcpConnector :=
  if !env.socketOk then c.fail env .sysError
  else
    let c := { c with socket := c.socket.make }
    match env.connect with
    | .immediate => c.connected env
    | .inProgress => c
    | .failed => c.fail env .sysError

/-- `connector_dns_cb`; no result is there when not even one for the error could be allocated. -/
def dnsCb (env : TcpEnv) (answer : Option DnsAnswer) (c : TcpConnector) : TcpConnector :=
  let c := { c with asking := false }
  match answer with
  | none => { c with faulted := true }
  | some r =>
    let c := { c with result := c.result.make }
    if r.error ≠ .ok ∨ r.hasAddrs = false then
      fail env (if r.error ≠ .ok then r.error else .dnsError) { c with result := c.result.release }
    else doTcpConnect env { c with phase := .tcpConnect }

/-- `connector_on_writable`. -/
def onWritable (env : TcpEnv) (c : TcpConnector) : TcpConnector :=
  match c.phase with
  | .tcpConnect => if env.soError then c.fail env .sysError else c.connected env
  | .tlsHandshake => c.handshake env
  | .dns => c

/-- `connector_on_readable`. -/
def onReadable (env : TcpEnv) (c : TcpConnector) : TcpConnector :=
  match c.phase with
  | .tlsHandshake => c.handshake env
  | _ => c

/-- A callback is entered with the connector for its argument. -/
def enter (f : TcpConnector → TcpConnector) (c : TcpConnector) : TcpConnector :=
  if c.self = .held then f c else { c with faulted := true }

/-- `connector_sock_cb`. -/
def sockCb (write read : Bool) (env env' : TcpEnv) (c : TcpConnector) : TcpConnector :=
  let c := if write then c.enter (onWritable env) else c
  if read then c.enter (onReadable env') else c

/-- `dns_done_fn`. -/
def dnsDone (env : TcpEnv) (answer : Option DnsAnswer) (c : TcpConnector) : TcpConnector :=
  let c := if c.cancelled then c else c.enter (dnsCb env answer)
  { c with query := c.query.release }

/-- `connector_timeout_cb`. -/
def timeoutCb (env : TcpEnv) (c : TcpConnector) : TcpConnector :=
  fail env .timeout { c with timer := c.timer.release }

/-- What `xTcpConnect` meets: its arguments, its allocations, the timer and `xDnsResolve`. -/
structure StartEnv where
  argsOk : Bool := true
  allocOk : Bool := true
  hostOk : Bool := true
  timerOk : Bool := true
  resolveOk : Bool := true

/-- `xTcpConnect`. -/
def tcpConnect (conf : TcpConf) (env : StartEnv) : TcpConnector :=
  if !env.argsOk then { conf, returned := .invalidArg }
  else if !env.allocOk then { conf, returned := .noMemory }
  else if !env.hostOk then { conf, self := Life.held.release, returned := .noMemory }
  else
    let c : TcpConnector := { conf, self := .held, timer := if env.timerOk then .held else .unmade }
    if env.resolveOk then { c with query := .held, asking := true }
    else { c.destroy {} with returned := .sysError }

/-- The end of the query's work; an event of the socket, with what is returned in the two halves; the timer. -/
inductive Input
  | dns (answer : Option DnsAnswer) (env : TcpEnv)
  | event (write read : Bool) (env env' : TcpEnv)
  | timeout (env : TcpEnv)

def step (c : TcpConnector) : Input → Option TcpConnector
  | .dns answer env => if c.query = .held then some (c.dnsDone env answer) else none
  | .event write read env env' => if c.socket = .held then some (c.sockCb write read env env') else none
  | .timeout env => if c.timer = .held then some (c.enter (timeoutCb env)) else none

/-- **The attempt ends once.**  As long as the connector is there its callback was not called, and a query or a
socket will go on with it.  Then the callback was called once, or not at all where `xTcpConnect` returned an
error; the event loop has nothing for the connector; what it made was released once, but for the socket and the
transport of a connection, which are the connection's; and nothing went on with it. -/
structure EndsOnce (c : TcpConnector) : Prop where
  once : c.calls.length = if c.returned = .ok ∧ c.self ≠ .held then 1 else 0
  pending : c.self = .held → c.returned = .ok ∧ (c.asking = true ∨ c.socket = .held) ∧
    (c.timer = .held ∨ c.timer = .unmade)
  gone : c.self ≠ .held → c.asking = false ∧ c.self.Gone ∧ c.timer.Gone ∧ c.result.Gone ∧ c.ctx.Gone
  query : c.query.Gone ∨ c.query = .held ∧ (c.asking = true ∨ c.cancelled = true)
  socket : c.self ≠ .held →
    c.calls = [.ok] ∧ c.socket = .handed ∧ c.transport = .handed ∨
      c.calls ≠ [.ok] ∧ c.socket.Gone ∧ c.transport.Gone
  sound : c.faulted = false

/-! ### Events that end the connector in their first half -/

def HandshakeRc.ends : HandshakeRc → Prop
  | .done | .error => True
  | .wantRead | .wantWrite => False

/-- What comes after the connection ends the attempt: there is no TLS, or no context, no transport or no
handshake to wait for. -/
def ConnectedEnds (env : TcpEnv) (c : TcpConnector) : Prop :=
  (c.conf.tls || c.conf.tlsCtx) = true →
    (c.conf.tlsCtx = false ∧ env.ctxOk = false) ∨ env.initOk = false ∨ HandshakeRc.ends env.handshake

def WriteEnds (env : TcpEnv) (c : TcpConnector) : Prop :=
  match c.phase with
  | .tcpConnect => env.soError = true ∨ c.ConnectedEnds env
  | .tlsHandshake => HandshakeRc.ends env.handshake
  | .dns => False

/-- The condition: an event with both halves does not end the attempt in the first, and a query that is not
cancelled ends with a result. -/
def Clean (c : TcpConnector) : Input → Prop
  | .dns answer _ => c.cancelled = false → answer ≠ none
  | .event write read env _ => write = true → read = true → ¬ c.WriteEnds env
  | .timeout _ => True

/-! ### Stages -/

variable {c d : TcpConnector} {e e' : TcpEnv}

/-- The connector is there, and what it has is to be released yet. -/
structure Alive (c : TcpConnector) : Prop where
  self : c.self = .held
  faulted : c.faulted = false
  returned : c.returned = .ok
  calls : c.calls = []
  timer : c.timer.Kept
  result : c.result.Kept
  ctx : c.ctx.Kept

theorem Alive.of_eq (h : c.Alive) (heq : (d.self, d.faulted, d.returned, d.calls, d.timer, d.result, d.ctx) =
    (c.self, c.faulted, c.returned, c.calls, c.timer, c.result, c.ctx)) : d.Alive := by
  simp only [Prod.mk.injEq] at heq
  obtain ⟨h1, h2, h3, h4, h5, h6, h7⟩ := heq
  exact ⟨h1.trans h.self, h2.trans h.faulted, h3.trans h.returned, h4.trans h.calls, h5.symm ▸ h.timer,
    h6.symm ▸ h.result, h7.symm ▸ h.ctx⟩

/-- The attempt is over. -/
structure Ended (c : TcpConnector) : Prop where
  self : c.self.Gone
  faulted : c.faulted = false
  asking : c.asking = false
  calls : c.calls.length = if c.returned = .ok then 1 else 0
  timer : c.timer.Gone
  result : c.result.Gone
  ctx : c.ctx.Gone
  socket : c.calls = [.ok] ∧ c.socket = .handed ∧ c.transport = .handed ∨
    c.calls ≠ [.ok] ∧ c.socket.Gone ∧ c.transport.Gone

/-- Waiting for DNS; for the connection; for the handshake; over. -/
inductive Stage (c : TcpConnector) : Prop
  | waiting : c.Alive → c.timer ≠ .released → c.phase = .dns → c.asking = true → c.result = .unmade → c.socket = .unmade →
      c.transport = .unmade → c.ctx = .unmade → c.hasCtx = false → Stage c
  | trying : c.Alive → c.timer ≠ .released → c.phase = .tcpConnect → c.asking = false → c.socket = .held → c.transport = .unmade →
      c.ctx = .unmade → c.hasCtx = false → Stage c
  | shaking : c.Alive → c.timer ≠ .released → c.phase = .tlsHandshake → c.asking = false → c.socket = .held →
      c.transport = .held → Stage c
  | ended : c.Ended → Stage c

/-- The query is asked for, or gone, or flagged and on its own. -/
def QueryOk (c : TcpConnector) : Prop :=
  c.asking = true ∧ c.query = .held ∧ c.cancelled = false ∨
    c.asking = false ∧ (c.query.Gone ∨ c.query = .held ∧ c.cancelled = true)

theorem ne_held {l : Life} (h : l.Gone) : l ≠ .held := by
  rcases h with rfl | rfl <;> decide

theorem Stage.endsOnce (h : Stage c) (hq : c.QueryOk) : c.EndsOnce := by
  have hquery : c.query.Gone ∨ c.query = .held ∧ (c.asking = true ∨ c.cancelled = true) := by
    rcases hq with ⟨ha, hq, -⟩ | ⟨-, hq | ⟨hq, hc⟩⟩
    · exact .inr ⟨hq, .inl ha⟩
    · exact .inl hq
    · exact .inr ⟨hq, .inr hc⟩
  have halive : c.Alive → c.timer ≠ .released → c.asking = true ∨ c.socket = .held → c.EndsOnce := by
    intro ha hn hs
    have htimer : c.timer = .held ∨ c.timer = .unmade := by
      rcases ha.timer with (h | h) | h
      · exact .inr h
      · exact absurd h hn
      · exact .inl h
    refine ⟨?_, fun _ => ⟨ha.returned, hs, htimer⟩, fun hn => absurd ha.self hn, hquery,
      fun hn => absurd ha.self hn, ha.faulted⟩
    rw [ha.calls, if_neg (fun h => h.2 ha.self)]
    rfl
  cases h with
  | waiting ha hn _ hasking => exact halive ha hn (.inl hasking)
  | trying ha hn _ _ hs | shaking ha hn _ _ hs => exact halive ha hn (.inr hs)
  | ended he =>
    have hn := ne_held he.self
    refine ⟨?_, fun hh => absurd hh hn, fun _ => ⟨he.asking, he.self, he.timer, he.result, he.ctx⟩, hquery,
      fun _ => he.socket, he.faulted⟩
    rw [he.calls]
    by_cases hr : c.returned = .ok
    · rw [if_pos hr, if_pos ⟨hr, hn⟩]
    · rw [if_neg hr, if_neg (fun h => hr h.1)]

/-! ### The ends -/

/-- What `connector_destroy` leaves. -/
structure Destroyed (c d : TcpConnector) : Prop where
  self : d.self = c.self.release
  faulted : d.faulted = c.faulted
  asking : d.asking = false
  calls : d.calls = c.calls
  returned : d.returned = c.returned
  timer : d.timer = c.timer.drop
  result : d.result = c.result.drop
  ctx : d.ctx = c.ctx.drop
  socket : d.socket = c.socket.drop
  transport : d.transport = c.transport.drop

theorem destroyed_destroy (e : TcpEnv) (c : TcpConnector) : Destroyed c (c.destroy e) := by
  unfold destroy dnsCancel
  dsimp only
  by_cases ha : c.asking = true
  · rw [if_pos ha]
    split_ifs
    all_goals exact ⟨rfl, rfl, rfl, rfl, rfl, rfl, rfl, rfl, rfl, rfl⟩
  · rw [if_neg ha]
    exact ⟨rfl, rfl, Bool.eq_false_iff.mpr ha, rfl, rfl, rfl, rfl, rfl, rfl, rfl⟩

theorem destroy_query (ha : c.asking = false) :
    (c.destroy e).query = c.query ∧ (c.destroy e).cancelled = c.cancelled := by
  unfold destroy
  dsimp only
  rw [if_neg (by rw [ha]; decide)]
  exact ⟨rfl, rfl⟩

/-- **A failure** ends the attempt. -/
theorem ended_fail {r : Errno} (h : c.Alive) (hs : c.socket.Kept) (ht : c.transport.Kept) (hrc : r ≠ .ok) :
    Ended (c.fail e r) := by
  have hd := destroyed_destroy e c
  refine ⟨?_, hd.faulted.trans h.faulted, hd.asking, ?_, ?_, ?_, ?_, .inr ⟨?_, ?_, ?_⟩⟩
  · exact .inr (hd.self.trans (by rw [h.self]; rfl))
  · show (List.length (_ ++ _)) = if (c.destroy e).returned = .ok then 1 else 0
    rw [hd.calls, h.calls, hd.returned, h.returned]
    rfl
  · show (c.destroy e).timer.Gone
    rw [hd.timer]
    exact Life.gone_drop (h.timer)
  · show (c.destroy e).result.Gone
    rw [hd.result]
    exact Life.gone_drop h.result
  · show (c.destroy e).ctx.Gone
    rw [hd.ctx]
    exact Life.gone_drop h.ctx
  · show (c.destroy e).calls ++ [r] ≠ [.ok]
    rw [hd.calls, h.calls]
    exact fun he => hrc (List.cons.inj he).1
  · show (c.destroy e).socket.Gone
    rw [hd.socket]
    exact Life.gone_drop hs
  · show (c.destroy e).transport.Gone
    rw [hd.transport]
    exact Life.gone_drop ht

/-- From `c` to `d` with the query left alone. -/
structure Goes (c d : TcpConnector) : Prop where
  stage : Stage d
  asking : d.asking = false
  query : d.query = c.query
  cancelled : d.cancelled = c.cancelled

theorem Goes.of_eq {b : TcpConnector} (h : Goes c d) (heq : (c.query, c.cancelled) = (b.query, b.cancelled)) :
    Goes b d := by
  simp only [Prod.mk.injEq] at heq
  exact ⟨h.stage, h.asking, h.query.trans heq.1, h.cancelled.trans heq.2⟩

theorem goes_fail {r : Errno} (h : c.Alive) (ha : c.asking = false) (hs : c.socket.Kept) (ht : c.transport.Kept)
    (hrc : r ≠ .ok) : Goes c (c.fail e r) := by
  have he := ended_fail (e := e) h hs ht hrc
  exact ⟨.ended he, he.asking, (destroy_query ha).1, (destroy_query ha).2⟩

/-- **A success** ends the attempt, and hands the socket and the transport on. -/
theorem goes_succeed (h : c.Alive) (ha : c.asking = false) (hs : c.socket = .held) (ht : c.transport = .held) :
    Goes c (c.succeed e) := by
  have htimer : c.timer.drop.Gone := Life.gone_drop h.timer
  unfold succeed
  split_ifs
  · let b : TcpConnector :=
      { c with timer := c.timer.drop, socket := c.socket.hand, transport := c.transport.hand }
    have hd : Destroyed b (b.destroy e) := destroyed_destroy e b
    have hq := destroy_query (e := e) (c := b) ha
    have hcalls : (b.destroy e).calls = [] := hd.calls.trans h.calls
    refine ⟨.ended ⟨?_, hd.faulted.trans h.faulted, hd.asking, ?_, ?_, ?_, ?_, .inl ⟨?_, ?_, ?_⟩⟩, hd.asking, hq.1,
      hq.2⟩
    · exact .inr (hd.self.trans (congrArg Life.release h.self))
    · show (List.length (_ ++ _)) = if (b.destroy e).returned = .ok then 1 else 0
      rw [hcalls, hd.returned.trans h.returned]
      rfl
    · show (b.destroy e).timer.Gone
      rw [hd.timer]
      exact Life.gone_drop htimer.kept
    · show (b.destroy e).result.Gone
      rw [hd.result]
      exact Life.gone_drop h.result
    · show (b.destroy e).ctx.Gone
      rw [hd.ctx]
      exact Life.gone_drop h.ctx
    · show (b.destroy e).calls ++ [.ok] = [.ok]
      rw [hcalls]
      rfl
    · exact hd.socket.trans (congrArg (fun l => l.hand.drop) hs)
    · exact hd.transport.trans (congrArg (fun l => l.hand.drop) ht)
  · have hdrop : ∀ {l : Life}, l = .held → l.drop.Kept := by
      rintro l rfl
      decide
    have hg := goes_fail (e := e) (r := .noMemory)
      (c := { c with timer := c.timer.drop, transport := c.transport.drop, socket := c.socket.drop })
      ⟨h.self, h.faulted, h.returned, h.calls, htimer.kept, h.result, h.ctx⟩ ha (hdrop hs) (hdrop ht) (by decide)
    exact hg.of_eq rfl

/-! ### Steps -/

theorem goes_handshake (h : c.Alive) (hn : c.timer ≠ .released) (hp : c.phase = .tlsHandshake)
    (ha : c.asking = false) (hs : c.socket = .held) (ht : c.transport = .held) : Goes c (c.handshake e) := by
  unfold handshake
  cases e.handshake with
  | done => exact goes_succeed h ha hs ht
  | wantRead | wantWrite => exact ⟨.shaking h hn hp ha hs ht, ha, rfl, rfl⟩
  | error => exact goes_fail h ha (.inr hs) (.inr ht) (by decide)

theorem goes_initTls (h : c.Alive) (hn : c.timer ≠ .released) (hp : c.phase = .tlsHandshake)
    (ha : c.asking = false) (hs : c.socket = .held) (ht : c.transport = .unmade) : Goes c (c.initTls e) := by
  unfold initTls
  split_ifs
  · exact goes_fail h ha (.inr hs) (.inl (.inl ht)) (by decide)
  · have hmake : c.transport.make = .held := by rw [ht]; rfl
    have hg := goes_handshake (e := e) (c := { c with transport := c.transport.make })
      (h.of_eq rfl) hn hp ha hs hmake
    exact hg.of_eq rfl

theorem goes_doTlsHandshake (h : c.Alive) (hn : c.timer ≠ .released) (hp : c.phase = .tlsHandshake)
    (ha : c.asking = false) (hs : c.socket = .held) (ht : c.transport = .unmade) (hc : c.ctx = .unmade) :
    Goes c (c.doTlsHandshake e) := by
  unfold doTlsHandshake
  split_ifs
  · exact goes_initTls h hn hp ha hs ht
  · have hg := goes_initTls (e := e) (c := { c with hasCtx := true })
      (h.of_eq rfl) hn hp ha hs ht
    exact hg.of_eq rfl
  · exact goes_fail h ha (.inr hs) (.inl (.inl ht)) (by decide)
  · have hmake : c.ctx.make.Kept := by rw [hc]; decide
    have hg := goes_initTls (e := e) (c := { c with hasCtx := true, ctx := c.ctx.make })
      ⟨h.self, h.faulted, h.returned, h.calls, h.timer, h.result, hmake⟩ hn hp ha hs ht
    exact hg.of_eq rfl
  · exact goes_initTls h hn hp ha hs ht

theorem goes_connected (h : c.Alive) (hn : c.timer ≠ .released) (ha : c.asking = false) (hs : c.socket = .held)
    (ht : c.transport = .unmade) (hc : c.ctx = .unmade) : Goes c (c.connected e) := by
  unfold connected
  split_ifs
  · have hg := goes_doTlsHandshake (e := e) (c := { c with phase := .tlsHandshake })
      (h.of_eq rfl) hn rfl ha hs ht hc
    exact hg.of_eq rfl
  · exact goes_fail h ha (.inr hs) (.inl (.inl ht)) (by decide)
  · have hmake : c.transport.make = .held := by rw [ht]; rfl
    have hg := goes_succeed (e := e) (c := { c with transport := c.transport.make })
      (h.of_eq rfl) ha hs hmake
    exact hg.of_eq rfl

theorem goes_doTcpConnect (h : c.Alive) (hn : c.timer ≠ .released) (hp : c.phase = .tcpConnect)
    (ha : c.asking = false) (hs : c.socket = .unmade) (ht : c.transport = .unmade) (hc : c.ctx = .unmade)
    (hh : c.hasCtx = false) : Goes c (c.doTcpConnect e) := by
  have hmake : c.socket.make = .held := by rw [hs]; rfl
  have h' : Alive { c with socket := c.socket.make } :=
    h.of_eq rfl
  unfold doTcpConnect
  split_ifs
  · exact goes_fail h ha (.inl (.inl hs)) (.inl (.inl ht)) (by decide)
  · cases e.connect with
    | immediate =>
      have hg := goes_connected (e := e) h' hn ha hmake ht hc
      exact hg.of_eq rfl
    | inProgress => exact ⟨.trying h' hn hp ha hmake ht hc hh, ha, rfl, rfl⟩
    | failed =>
      have hg := goes_fail (e := e) (r := .sysError) h' ha (.inr hmake) (.inl (.inl ht)) (by decide)
      exact hg.of_eq rfl

/-- **An answer from DNS.** -/
theorem goes_dnsCb {a : DnsAnswer} (h : c.Alive) (hn : c.timer ≠ .released) (hr : c.result = .unmade)
    (hs : c.socket = .unmade) (ht : c.transport = .unmade) (hc : c.ctx = .unmade) (hh : c.hasCtx = false) :
    Goes { c with asking := false } (c.dnsCb e (some a)) := by
  unfold dnsCb
  dsimp only
  by_cases hbad : a.error ≠ .ok ∨ a.hasAddrs = false
  · rw [if_pos hbad]
    have hgone : c.result.make.release.Kept := by rw [hr]; decide
    have hrc : (if a.error ≠ .ok then a.error else .dnsError) ≠ .ok := by
      split_ifs with he
      · exact he
      · decide
    have hg := goes_fail (e := e) (c := { c with asking := false, result := c.result.make.release })
      ⟨h.self, h.faulted, h.returned, h.calls, h.timer, hgone, h.ctx⟩ rfl (.inl (.inl hs)) (.inl (.inl ht)) hrc
    exact hg.of_eq rfl
  · rw [if_neg hbad]
    have hkept : c.result.make.Kept := by rw [hr]; decide
    have hg := goes_doTcpConnect (e := e)
      (c := { c with asking := false, result := c.result.make, phase := .tcpConnect })
      ⟨h.self, h.faulted, h.returned, h.calls, h.timer, hkept, h.ctx⟩ hn rfl rfl hs ht hc hh
    exact hg.of_eq rfl

/-! ### Which first half ends the attempt -/

theorem self_handshake (h : c.self = .held) (hends : ¬ HandshakeRc.ends e.handshake) :
    (c.handshake e).self = .held := by
  unfold handshake
  cases hrc : e.handshake with
  | done | error =>
    rw [hrc] at hends
    exact absurd trivial hends
  | wantRead | wantWrite => exact h

theorem self_connected (h : c.self = .held) (hh : c.hasCtx = false) (hends : ¬ c.ConnectedEnds e) :
    (c.connected e).self = .held := by
  unfold ConnectedEnds at hends
  rw [Classical.not_imp, not_or, not_or] at hends
  obtain ⟨htls, hctx, hinit, hshake⟩ := hends
  have hinit : e.initOk = true := Bool.not_eq_false _ ▸ hinit
  have hgo : ∀ b : TcpConnector, b.self = .held → (b.initTls e).self = .held := by
    intro b hb
    unfold initTls
    rw [hinit]
    exact self_handshake (c := { b with transport := b.transport.make }) hb hshake
  unfold connected
  rw [if_pos htls]
  unfold doTlsHandshake
  rw [hh, if_neg Bool.false_ne_true]
  by_cases hshared : c.conf.tlsCtx = true
  · rw [if_pos hshared]
    exact hgo _ h
  · rw [if_neg hshared]
    have hctxOk : e.ctxOk = true := by
      by_contra hc
      exact hctx ⟨Bool.eq_false_iff.mpr hshared, Bool.eq_false_iff.mpr hc⟩
    rw [hctxOk, if_neg (show ¬ (!true) = true by decide)]
    split_ifs
    · exact hgo _ h
    · exact hgo _ h

theorem self_onWritable (h : Stage c) (hself : c.self = .held) (hends : ¬ c.WriteEnds e) :
    (c.onWritable e).self = .held := by
  unfold WriteEnds at hends
  unfold onWritable
  cases h with
  | waiting _ _ hp =>
    rw [hp]
    exact hself
  | trying _ _ hp _ _ _ _ hh =>
    rw [hp] at hends ⊢
    rw [not_or, Bool.not_eq_true] at hends
    rw [hends.1, if_neg Bool.false_ne_true]
    exact self_connected hself hh hends.2
  | shaking _ _ hp =>
    rw [hp] at hends ⊢
    exact self_handshake hself hends
  | ended he => exact absurd hself (ne_held he.self)

/-! ### Runs -/

/-- What every step of a clean run keeps. -/
structure Kept (c : TcpConnector) : Prop where
  stage : Stage c
  query : c.QueryOk

theorem Goes.kept (h : Goes c d) (hq : c.QueryOk) (ha : c.asking = false) : Kept d := by
  refine ⟨h.stage, ?_⟩
  rcases hq with ⟨hb, -, -⟩ | ⟨-, hq⟩
  · exact absurd (hb.symm.trans ha) nofun
  · right
    rw [h.asking, h.query, h.cancelled]
    exact ⟨rfl, hq⟩

theorem kept_onWritable (h : Kept c) (hself : c.self = .held) (hs : c.socket = .held) :
    Kept (c.onWritable e) := by
  unfold onWritable
  cases h.stage with
  | waiting _ _ _ _ _ hs' => exact absurd (hs.symm.trans hs') nofun
  | trying ha hn hp hasking hs ht hc hh =>
    rw [hp]
    split_ifs
    · exact (goes_fail ha hasking (.inr hs) (.inl (.inl ht)) (by decide)).kept h.query hasking
    · exact (goes_connected ha hn hasking hs ht hc).kept h.query hasking
  | shaking ha hn hp hasking hs ht =>
    rw [hp]
    exact (goes_handshake ha hn hp hasking hs ht).kept h.query hasking
  | ended he => exact absurd hself (ne_held he.self)

theorem kept_onReadable (h : Kept c) (hself : c.self = .held) : Kept (c.onReadable e) := by
  unfold onReadable
  cases h.stage with
  | waiting _ _ hp | trying _ _ hp =>
    rw [hp]
    exact h
  | shaking ha hn hp hasking hs ht =>
    rw [hp]
    exact (goes_handshake ha hn hp hasking hs ht).kept h.query hasking
  | ended he => exact absurd hself (ne_held he.self)

theorem enter_held {f : TcpConnector → TcpConnector} (h : c.self = .held) : c.enter f = f c := if_pos h

theorem Stage.self_of_socket (h : Stage c) (hs : c.socket = .held) : c.self = .held := by
  cases h with
  | waiting ha | trying ha | shaking ha => exact ha.self
  | ended he =>
    rcases he.socket with ⟨-, hs', -⟩ | ⟨-, hs', -⟩
    · exact absurd (hs.symm.trans hs') nofun
    · exact absurd hs (ne_held hs')

theorem Stage.self_of_timer (h : Stage c) (ht : c.timer = .held) : c.Alive := by
  cases h with
  | waiting ha | trying ha | shaking ha => exact ha
  | ended he => exact absurd ht (ne_held he.timer)

theorem kept_sockCb (h : Kept c) (hs : c.socket = .held) (write read : Bool)
    (hclean : write = true → read = true → ¬ c.WriteEnds e) : Kept (c.sockCb write read e e') := by
  have hself := h.stage.self_of_socket hs
  cases write with
  | false =>
    cases read with
    | false => exact h
    | true =>
      show Kept (c.enter _)
      rw [enter_held hself]
      exact kept_onReadable h hself
  | true =>
    have hw : Kept (c.onWritable e) := kept_onWritable h hself hs
    cases read with
    | false =>
      show Kept (c.enter _)
      rw [enter_held hself]
      exact hw
    | true =>
      show Kept (enter _ (c.enter _))
      rw [enter_held hself]
      have hself' := self_onWritable h.stage hself (hclean rfl rfl)
      rw [enter_held hself']
      exact kept_onReadable hw hself'

theorem kept_dnsDone {answer : Option DnsAnswer} (h : Kept c) (hq : c.query = .held)
    (hclean : c.cancelled = false → answer ≠ none) : Kept (c.dnsDone e answer) := by
  have hreleased : ∀ b : TcpConnector, Stage b → b.asking = false → b.query = .held →
      Kept { b with query := b.query.release } := by
    intro b hb ha hq
    refine ⟨?_, .inr ⟨ha, .inl (.inr (by rw [hq]; rfl))⟩⟩
    cases hb with
    | waiting _ _ _ ha' => exact absurd (ha.symm.trans ha') nofun
    | trying ha hn hp hasking hs ht hc hh =>
      exact .trying ⟨ha.1, ha.2, ha.3, ha.4, ha.5, ha.6, ha.7⟩ hn hp hasking hs ht hc hh
    | shaking ha hn hp hasking hs ht =>
      exact .shaking ⟨ha.1, ha.2, ha.3, ha.4, ha.5, ha.6, ha.7⟩ hn hp hasking hs ht
    | ended he => exact .ended ⟨he.1, he.2, he.3, he.4, he.5, he.6, he.7, he.8⟩
  unfold dnsDone
  rcases h.query with ⟨hasking, -, hcancelled⟩ | ⟨hasking, hgone | ⟨-, hcancelled⟩⟩
  · rw [hcancelled, if_neg Bool.false_ne_true]
    cases h.stage with
    | trying _ _ _ ha' | shaking _ _ _ ha' => exact absurd (hasking.symm.trans ha') nofun
    | ended he => exact absurd (hasking.symm.trans he.asking) nofun
    | waiting ha hn hp _ hr hs ht hc hh =>
      rw [enter_held ha.self]
      cases answer with
      | none => exact absurd rfl (hclean hcancelled)
      | some answer =>
        have hg := goes_dnsCb (e := e) (a := answer) ha hn hr hs ht hc hh
        exact hreleased _ hg.stage hg.asking (hg.query.trans hq)
  · exact absurd hq (ne_held hgone)
  · rw [hcancelled, if_pos rfl]
    exact hreleased c h.stage hasking hq

/-- **The timeout**, which is the one end at which a query may be under way. -/
theorem kept_timeoutCb (h : Kept c) (ht : c.timer = .held) : Kept (c.timeoutCb e) := by
  have ha := h.stage.self_of_timer ht
  have halive : Alive { c with timer := c.timer.release } :=
    ⟨ha.self, ha.faulted, ha.returned, ha.calls, by dsimp only; rw [ht]; decide, ha.result, ha.ctx⟩
  have hkept : c.socket.Kept ∧ c.transport.Kept := by
    cases h.stage with
    | waiting _ _ _ _ _ hs ht => exact ⟨.inl (.inl hs), .inl (.inl ht)⟩
    | trying _ _ _ _ hs ht => exact ⟨.inr hs, .inl (.inl ht)⟩
    | shaking _ _ _ _ hs ht => exact ⟨.inr hs, .inr ht⟩
    | ended he => exact absurd ht (ne_held he.timer)
  have hended : Ended (c.timeoutCb e) := ended_fail halive hkept.1 hkept.2 (by decide)
  refine ⟨.ended hended, .inr ⟨hended.asking, ?_⟩⟩
  rcases h.query with ⟨hasking, hq, hcancelled⟩ | ⟨hasking, hq⟩
  · unfold timeoutCb fail destroy dnsCancel
    dsimp only
    rw [if_pos hasking]
    split_ifs
    · exact .inl (.inr (by dsimp only; rw [hq]; rfl))
    · exact .inr ⟨hq, rfl⟩
  · have hd := destroy_query (e := e) (c := { c with timer := c.timer.release }) hasking
    show Life.Gone (destroy e _).query ∨ (destroy e _).query = .held ∧ (destroy e _).cancelled = true
    rw [hd.1, hd.2]
    exact hq

theorem Kept.step {i : Input} (h : Kept c) (hclean : c.Clean i) (hs : c.step i = some d) : Kept d := by
  unfold TcpConnector.step at hs
  cases i with
  | dns answer e =>
    dsimp only at hs
    split_ifs at hs with hq
    obtain rfl := Option.some.inj hs
    exact kept_dnsDone h hq hclean
  | event write read e e' =>
    dsimp only at hs
    split_ifs at hs with hsock
    obtain rfl := Option.some.inj hs
    exact kept_sockCb h hsock write read hclean
  | timeout e =>
    dsimp only at hs
    split_ifs at hs with ht
    obtain rfl := Option.some.inj hs
    rw [enter_held (h.stage.self_of_timer ht).self]
    exact kept_timeoutCb h ht

theorem kept_tcpConnect (conf : TcpConf) (e : StartEnv) : Kept (tcpConnect conf e) := by
  have hnone : ∀ (self : Life) (r : Errno), self.Gone → r ≠ .ok → Kept { conf, self, returned := r } := by
    intro self r hself hrc
    refine ⟨.ended ⟨hself, rfl, rfl, (if_neg hrc).symm, .inl rfl, .inl rfl, .inl rfl, ?_⟩, .inr ⟨rfl, .inl (.inl rfl)⟩⟩
    exact .inr ⟨nofun, .inl rfl, .inl rfl⟩
  unfold tcpConnect
  by_cases hargs : (!e.argsOk) = true
  · rw [if_pos hargs]
    exact hnone _ _ (.inl rfl) (by decide)
  rw [if_neg hargs]
  by_cases halloc : (!e.allocOk) = true
  · rw [if_pos halloc]
    exact hnone _ _ (.inl rfl) (by decide)
  rw [if_neg halloc]
  by_cases hhost : (!e.hostOk) = true
  · rw [if_pos hhost]
    exact hnone _ _ (.inr rfl) (by decide)
  rw [if_neg hhost]
  have htimer : (if e.timerOk = true then Life.held else .unmade) = .held ∨
      (if e.timerOk = true then Life.held else .unmade) = .unmade := by
    split_ifs
    · exact .inl rfl
    · exact .inr rfl
  by_cases hresolve : e.resolveOk = true
  · rw [if_pos hresolve]
    refine ⟨.waiting ⟨rfl, rfl, rfl, rfl, ?_, .inl (.inl rfl), .inl (.inl rfl)⟩ ?_ rfl rfl rfl rfl rfl rfl rfl,
      .inl ⟨rfl, rfl, rfl⟩⟩
    · rcases htimer with h | h
      · exact .inr h
      · exact .inl (.inl h)
    · rcases htimer with h | h
      all_goals exact fun he => absurd (h.symm.trans he) nofun
  · rw [if_neg hresolve]
    have hgone : (if e.timerOk = true then Life.held else .unmade).drop.Gone := by
      rcases htimer with h | h
      · rw [h]
        exact .inr rfl
      · rw [h]
        exact .inl rfl
    refine ⟨.ended ⟨.inr rfl, rfl, rfl, rfl, hgone, .inl rfl, .inl rfl, ?_⟩, .inr ⟨rfl, .inl (.inl rfl)⟩⟩
    exact .inr ⟨nofun, .inl rfl, .inl rfl⟩

/-- **An attempt ends exactly once** in every clean run, however it was started. -/
theorem attempt_endsOnce {conf : TcpConf} {e : StartEnv} (h : Run step Clean (tcpConnect conf e) c) :
    c.EndsOnce :=
  let hk : Kept c := h.preserves (fun _ _ _ hk hclean hs => hk.step hclean hs) (kept_tcpConnect conf e)
  hk.stage.endsOnce hk.query

/-- DNS answers, the connection comes with TLS, and the handshake is done when the socket can be read. -/
theorem attempt_endsOnce_tls :
    ∃ c, Run step Clean (tcpConnect { tls := true } {}) c ∧ c.calls = [.ok] ∧ c.EndsOnce := by
  let c0 := tcpConnect { tls := true } {}
  let c1 := c0.dnsDone {} (some {})
  let c2 := c1.sockCb true false {} {}
  let c3 := c2.sockCb false true {} { handshake := .done }
  have h1 : step c0 (.dns (some {}) {}) = some c1 := rfl
  have h2 : step c1 (.event true false {} {}) = some c2 := rfl
  have h3 : step c2 (.event false true {} { handshake := .done }) = some c3 := rfl
  have hc1 : Clean c0 (.dns (some {}) {}) := fun _ => nofun
  have hc2 : Clean c1 (.event true false {} {}) := fun _ hr => absurd hr (by decide)
  have hc3 : Clean c2 (.event false true {} { handshake := .done }) := fun hw => absurd hw (by decide)
  have hrun : Run step Clean c0 c3 := ((Run.single hc1 h1).tail hc2 h2).tail hc3 h3
  exact ⟨c3, hrun, rfl, attempt_endsOnce hrun⟩

/-- **The connection is refused** in an event with both halves: the second one goes on with the freed
connector. -/
theorem not_endsOnce_connect :
    ∃ c, Run step (fun _ _ => True) (tcpConnect {} {}) c ∧ ¬ c.EndsOnce := by
  let c0 := tcpConnect {} {}
  let c1 := c0.dnsDone {} (some {})
  have h1 : step c0 (.dns (some {}) {}) = some c1 := rfl
  have h2 : step c1 (.event true true { soError := true } {}) = some (c1.sockCb true true { soError := true } {}) := rfl
  exact ⟨_, (Run.single trivial h1).tail trivial h2, fun h => absurd h.sound (by decide)⟩

end TcpConnector

end Libx.Net
