import Libx.Core.Run
import Libx.Agent.Jsonl

/-!
# Libx.Http.Connect — a WebSocket connection is made

ws_connect.c: DNS, the addresses one after the other, TLS, the upgrade request and its response.
-/

namespace Libx.Http

open Libx.Core (Run)
open Libx.Agent (Bytes cstr)
open List

/-- `xWsConnectPhase`. -/
inductive ConnectPhase
  | dns
  | tcpConnect
  | tlsHandshake
  | httpUpgradeWrite
  | httpUpgradeRead
  | done
  deriving DecidableEq

/-- What becomes known: an address is tried, it is refused or the connection is there, `on_open`, `on_close(NULL, …)`. -/
inductive Note (Addr : Type)
  | tried (a : Addr)
  | refused
  | connected
  | opened
  | closed (code : ℕ)
  deriving DecidableEq

/-- No socket, an error at once, connected at once, or under way. -/
inductive ConnectResult
  | noSocket
  | failed
  | immediate
  | inProgress
  deriving DecidableEq

/-- Of the handshake, or of what is set up for it. -/
inductive TlsResult
  | done
  | wantRead
  | wantWrite
  | error
  deriving DecidableEq

/-- Of `writev`. -/
inductive WriteResult
  | wrote (n : ℕ)
  | again
  | error
  deriving DecidableEq

/-- Of `read`. -/
inductive ReadResult
  | data (d : Bytes)
  | again
  | eof
  | error
  deriving DecidableEq

/-- What the system returns while an event is handled: the error of the socket, the further addresses in order, TLS, the
request if it can be built, the writes, the read, whether the response is valid and whether the `xWsConn` can be made. -/
structure ConnectEnv where
  soError : Bool := false
  connects : List ConnectResult := []
  tls : TlsResult := .wantRead
  request : Option Bytes := none
  writes : List WriteResult := []
  read : ReadResult := .again
  valid : Bytes → Bool := fun _ => false
  created : Bool := true

/-- `xWsConnector`; `rest` are the addresses after `current_addr`.  `socket`, `timer` and `query`: the event loop has the
socket, the timer, the DNS query for it.  `found` is what DNS returned. -/
structure Connector (Addr : Type) where
  useTls : Bool
  phase : ConnectPhase := .dns
  rest : List Addr := []
  writeBuf : Bytes := []
  resp : Bytes := []
  socket : Bool := false
  timer : Bool := true
  query : Bool := true
  destroyed : Bool := false
  faulted : Bool := false
  found : List Addr := []
  log : List (Note Addr) := []

/-- `XWS_CLOSE_ABNORMAL`, `XWS_CLOSE_PROTOCOL_ERR`. -/
def closeAbnormal : ℕ := 1006
def closeProtocolErr : ℕ := 1002

/-- `XWS_MAX_RESPONSE_SIZE`. -/
def maxResponseSize : ℕ := 4096

/-- `strstr` of the empty line: where the headers end. -/
def headersEnd : Bytes → Option ℕ
  | 13 :: 10 :: 13 :: 10 :: _ => some 4
  | [] => none
  | _ :: b => (headersEnd b).map (· + 1)

/-- How the writing of the request ends. -/
inductive Flushing
  | done
  | blocked (left : Bytes)
  | failed
  deriving DecidableEq

/-- The loop of writes, which blocks where no more results are there. -/
def flush : List WriteResult → Bytes → Flushing
  | _, [] => .done
  | [], b => .blocked b
  | .again :: _, b => .blocked b
  | .error :: _, _ => .failed
  | .wrote n :: ws, b => flush ws (b.drop n)

namespace Connector

variable {Addr : Type}

/-- `connector_destroy`. -/
def destroy (c : Connector Addr) : Connector Addr :=
  { c with socket := false, timer := false, query := false, destroyed := true }

/-- `connector_fail`. -/
def fail (code : ℕ) (c : Connector Addr) : Connector Addr := { c.destroy with log := c.log ++ [Note.closed code] }

/-- `connector_on_writable` while the request is written. -/
def writeRequest (env : ConnectEnv) (c : Connector Addr) : Connector Addr :=
  match flush env.writes c.writeBuf with
  | .done => { c with writeBuf := [], phase := .httpUpgradeRead, resp := [] }
  | .blocked left => { c with writeBuf := left }
  | .failed => c.fail closeAbnormal

/-- `connector_do_http_upgrade`. -/
def doHttpUpgrade (env : ConnectEnv) (c : Connector Addr) : Connector Addr :=
  let c := { c with phase := .httpUpgradeWrite }
  match env.request with
  | none => c.fail closeAbnormal
  | some request => writeRequest env { c with writeBuf := c.writeBuf ++ request }

/-- A handshake, in `connector_do_tls_handshake` or taken up again. -/
def handshake (env : ConnectEnv) (c : Connector Addr) : Connector Addr :=
  match env.tls with
  | .done => c.doHttpUpgrade env
  | .wantRead | .wantWrite => c
  | .error => c.fail closeAbnormal

def connected (env : ConnectEnv) (c : Connector Addr) : Connector Addr :=
  let c := { c with log := c.log ++ [Note.connected] }
  if c.useTls then handshake env { c with phase := .tlsHandshake } else c.doHttpUpgrade env

/-- `connector_do_tcp_connect` with the first of the addresses, and `connector_try_next_addr` where it fails. -/
def tryAddrs (env : ConnectEnv) : List ConnectResult → List Addr → Connector Addr → Connector Addr
  | _, [], c => c.fail closeAbnormal
  | rs, a :: rest, c =>
    let c := { c with rest, log := c.log ++ [Note.tried a] }
    match rs.head?.getD .failed with
    | .noSocket | .failed => tryAddrs env rs.tail rest { c with log := c.log ++ [Note.refused] }
    | .immediate => connected env { c with socket := true }
    | .inProgress => { c with socket := true }

/-- `connector_dns_cb`. -/
def dnsCb (env : ConnectEnv) (addrs : List Addr) (c : Connector Addr) : Connector Addr :=
  let c := { c with query := false }
  if addrs = [] then c.fail closeAbnormal
  else tryAddrs env env.connects addrs { c with found := addrs, phase := .tcpConnect }

/-- `connector_on_writable`. -/
def onWritable (env : ConnectEnv) (c : Connector Addr) : Connector Addr :=
  match c.phase with
  | .tcpConnect =>
    if env.soError then tryAddrs env env.connects c.rest { c with socket := false, log := c.log ++ [Note.refused] }
    else c.connected env
  | .tlsHandshake => c.handshake env
  | .httpUpgradeWrite => c.writeRequest env
  | _ => c

/-- More of the response, in `connector_on_readable`. -/
def onResponse (env : ConnectEnv) (d : Bytes) (c : Connector Addr) : Connector Addr :=
  let c := { c with resp := c.resp ++ d.take (maxResponseSize - 1 - c.resp.length) }
  match headersEnd (cstr c.resp).bytes with
  | none => c
  | some hdrEnd =>
    if ¬ env.valid (c.resp.take hdrEnd) then c.fail closeProtocolErr
    else
      -- the socket is the connection's from here on
      { c.destroy with
        phase := .done
        log := c.log ++ [if env.created then Note.opened else Note.closed closeAbnormal] }

/-- `connector_on_readable` while the response is read. -/
def readResponse (env : ConnectEnv) (c : Connector Addr) : Connector Addr :=
  if maxResponseSize ≤ c.resp.length + 1 then c.fail closeProtocolErr
  else
    match env.read with
    | .again => c
    | .error | .eof => c.fail closeAbnormal
    | .data d => c.onResponse env d

/-- `connector_on_readable`. -/
def onReadable (env : ConnectEnv) (c : Connector Addr) : Connector Addr :=
  match c.phase with
  | .tlsHandshake => c.handshake env
  | .httpUpgradeRead => c.readResponse env
  | _ => c

/-- `connector_sock_cb`: the second half does not look whether the first one ended the connector. -/
def sockCb (write read : Bool) (env env' : ConnectEnv) (c : Connector Addr) : Connector Addr :=
  let c := if write then c.onWritable env else c
  if read then (if c.destroyed then { c with faulted := true } else c.onReadable env') else c

/-- DNS returns addresses or, where it fails, none; an event of the socket, with what the system returns in the two
halves; the timer. -/
inductive Input (Addr : Type)
  | dns (addrs : List Addr) (env : ConnectEnv)
  | event (write read : Bool) (env env' : ConnectEnv)
  | timeout

/-- A step: what the event loop has the connector for. -/
def step (c : Connector Addr) : Input Addr → Option (Connector Addr)
  | .dns addrs env => if c.query then some (c.dnsCb env addrs) else none
  | .event write read env env' => if c.socket then some (c.sockCb write read env env') else none
  | .timeout => if c.timer then some (fail closeAbnormal { c with timer := false }) else none

/-! ### How an attempt goes -/

def attempts (as : List Addr) : List (Note Addr) := as.flatMap fun a => [.tried a, .refused]

/-- Before DNS, at an address after others were refused, connected; and the ends: all were refused, too late, and after
the connection was there. -/
inductive Course (found : List Addr) : List (Note Addr) → Bool → Prop
  | waiting : found = [] → Course found [] false
  | trying (pre : List Addr) (a : Addr) (rest : List Addr) : found = pre ++ a :: rest →
      Course found (attempts pre ++ [.tried a]) false
  | connected (pre : List Addr) (a : Addr) (rest : List Addr) : found = pre ++ a :: rest →
      Course found (attempts pre ++ [.tried a, .connected]) false
  | refused (code : ℕ) : Course found (attempts found ++ [.closed code]) true
  | late (pre : List Addr) (a : Addr) (rest : List Addr) (code : ℕ) : found = pre ++ a :: rest →
      Course found (attempts pre ++ [.tried a, .closed code]) true
  | opened (pre : List Addr) (a : Addr) (rest : List Addr) : found = pre ++ a :: rest →
      Course found (attempts pre ++ [.tried a, .connected, .opened]) true
  | failed (pre : List Addr) (a : Addr) (rest : List Addr) (code : ℕ) : found = pre ++ a :: rest →
      Course found (attempts pre ++ [.tried a, .connected, .closed code]) true

end Connector

/-- `on_open` or `on_close`. -/
def Note.ends {Addr : Type} : Note Addr → Bool
  | .opened | .closed _ => true
  | _ => false

namespace Connector

variable {Addr : Type}

/-- The addresses are tried in order until one connects; as long as the connector is there, neither `on_open` nor
`on_close` was called and the timer will end it; then exactly one was, the event loop has nothing for it, and nothing went
on with it. -/
structure EndsOnce (c : Connector Addr) : Prop where
  course : Course c.found c.log c.destroyed
  once : (c.log.filter Note.ends).length = if c.destroyed then 1 else 0
  timer : c.destroyed = false → c.timer = true
  quiet : c.destroyed = true → c.socket = false ∧ c.timer = false ∧ c.query = false
  sound : c.faulted = false

/-! ### Events that end the connector in their first half -/

def UpgradeFails (env : ConnectEnv) (c : Connector Addr) : Prop :=
  ∀ request, env.request = some request → flush env.writes (c.writeBuf ++ request) = .failed

/-- The handshake fails, or the request after it. -/
def HandshakeFails (env : ConnectEnv) (c : Connector Addr) : Prop :=
  env.tls = .error ∨ env.tls = .done ∧ c.UpgradeFails env

def ConnectedFails (env : ConnectEnv) (c : Connector Addr) : Prop :=
  if c.useTls then c.HandshakeFails env else c.UpgradeFails env

/-- All addresses fail at once, or what comes after one that connects at once. -/
def AddrsFail (after : Prop) : List ConnectResult → List Addr → Prop
  | _, [] => True
  | rs, _ :: rest =>
    match rs.head?.getD .failed with
    | .noSocket | .failed => AddrsFail after rs.tail rest
    | .immediate => after
    | .inProgress => False

/-- The first half of an event ends the connector. -/
def WriteEnds (env : ConnectEnv) (c : Connector Addr) : Prop :=
  match c.phase with
  | .tcpConnect => if env.soError then AddrsFail (c.ConnectedFails env) env.connects c.rest else c.ConnectedFails env
  | .tlsHandshake => c.HandshakeFails env
  | .httpUpgradeWrite => flush env.writes c.writeBuf = .failed
  | _ => False

/-- An event with both halves does not end the connector in the first. -/
def Whole (c : Connector Addr) : Input Addr → Prop
  | .event write read env _ => write = true → read = true → ¬ c.WriteEnds env
  | _ => True

variable {c : Connector Addr} {env env' : ConnectEnv} {found pre : List Addr} {a : Addr} {rest : List Addr}

theorem destroyed_writeRequest (h : c.destroyed = false) :
    (c.writeRequest env).destroyed = true ↔ flush env.writes c.writeBuf = .failed := by
  unfold writeRequest
  cases flush env.writes c.writeBuf with
  | done => exact iff_of_false (by rw [h]; decide) (by decide)
  | blocked left => exact iff_of_false (by rw [h]; decide) Flushing.noConfusion
  | failed => exact iff_of_true rfl rfl

theorem destroyed_doHttpUpgrade (h : c.destroyed = false) :
    (c.doHttpUpgrade env).destroyed = true ↔ c.UpgradeFails env := by
  unfold doHttpUpgrade UpgradeFails
  cases env.request with
  | none => exact iff_of_true rfl (fun _ hreq => (nomatch hreq))
  | some request =>
    have hwrite := @destroyed_writeRequest _ { c with phase := .httpUpgradeWrite, writeBuf := c.writeBuf ++ request } env h
    exact hwrite.trans ⟨fun hf _ hreq => Option.some.inj hreq ▸ hf, fun hall => hall request rfl⟩

theorem destroyed_handshake (h : c.destroyed = false) : (c.handshake env).destroyed = true ↔ c.HandshakeFails env := by
  unfold handshake HandshakeFails
  cases env.tls with
  | done =>
    refine (destroyed_doHttpUpgrade h).trans ?_
    exact ⟨fun hf => .inr ⟨rfl, hf⟩, fun hor => (hor.resolve_left TlsResult.noConfusion).2⟩
  | wantRead | wantWrite =>
    refine iff_of_false (by rw [h]; decide) ?_
    rintro (hbad | ⟨hbad, -⟩) <;> cases hbad
  | error => exact iff_of_true rfl (.inl rfl)

theorem destroyed_connected (h : c.destroyed = false) : (c.connected env).destroyed = true ↔ c.ConnectedFails env := by
  unfold connected ConnectedFails
  dsimp only
  split_ifs
  · exact destroyed_handshake h
  · exact destroyed_doHttpUpgrade h

theorem destroyed_tryAddrs {rs : List ConnectResult} {as : List Addr} (h : c.destroyed = false) :
    (tryAddrs env rs as c).destroyed = true ↔ AddrsFail (c.ConnectedFails env) rs as := by
  induction as generalizing rs c with
  | nil => exact iff_of_true rfl trivial
  | cons a rest ih =>
    unfold tryAddrs AddrsFail
    cases rs.head?.getD .failed with
    | noSocket | failed => exact ih h
    | immediate => exact destroyed_connected h
    | inProgress => exact iff_of_false (by rw [h]; decide) id

theorem destroyed_onWritable (h : c.destroyed = false) : (c.onWritable env).destroyed = true ↔ c.WriteEnds env := by
  unfold onWritable WriteEnds
  cases c.phase with
  | tcpConnect =>
    split_ifs
    · exact destroyed_tryAddrs h
    · exact destroyed_connected h
  | tlsHandshake => exact destroyed_handshake h
  | httpUpgradeWrite => exact destroyed_writeRequest h
  | dns | httpUpgradeRead | done => exact iff_of_false (by rw [h]; decide) id

/-! ### The stages of an attempt -/

/-- The connector is there, and its timer. -/
structure Alive (c : Connector Addr) : Prop where
  destroyed : c.destroyed = false
  faulted : c.faulted = false
  timer : c.timer = true

/-- Waiting for DNS; for an address, after others were refused; for TLS, the request or the response; ended. -/
inductive Stage (c : Connector Addr) : Prop
  | waiting : c.Alive → c.phase = .dns → c.socket = false → c.found = [] → c.log = [] → Stage c
  | trying (pre : List Addr) (a : Addr) : c.Alive → c.phase = .tcpConnect → c.query = false →
      c.found = pre ++ a :: c.rest → c.log = attempts pre ++ [.tried a] → Stage c
  | linked (pre : List Addr) (a : Addr) (rest : List Addr) : c.Alive →
      c.phase = .tlsHandshake ∨ c.phase = .httpUpgradeWrite ∨ c.phase = .httpUpgradeRead → c.query = false →
      c.found = pre ++ a :: rest → c.log = attempts pre ++ [.tried a, .connected] → Stage c
  | ended : c.destroyed = true → c.faulted = false → c.socket = false → c.timer = false → c.query = false →
      Course c.found c.log true → Stage c

theorem attempts_append (as bs : List Addr) : attempts (as ++ bs) = attempts as ++ attempts bs := flatMap_append

theorem ends_attempts (as : List Addr) : (attempts as).filter Note.ends = [] := by
  induction as with
  | nil => rfl
  | cons a as ih =>
    rw [attempts, flatMap_cons, filter_append]
    exact ih

theorem Course.once {log : List (Note Addr)} {b : Bool} (h : Course found log b) :
    (log.filter Note.ends).length = if b then 1 else 0 := by
  cases h with
  | waiting _ => rfl
  | trying | connected | refused | late | opened | failed =>
    rw [filter_append, ends_attempts]
    rfl

theorem Stage.endsOnce (h : Stage c) : c.EndsOnce := by
  have hcourse : Course c.found c.log c.destroyed := by
    cases h with
    | waiting ha hp hs hfound hlog =>
      rw [hlog, ha.destroyed]
      exact .waiting hfound
    | trying pre a ha hp hq hfound hlog =>
      rw [hlog, ha.destroyed]
      exact .trying pre a c.rest hfound
    | linked pre a rest ha hp hq hfound hlog =>
      rw [hlog, ha.destroyed]
      exact .connected pre a rest hfound
    | ended hd hf hs ht hq hcourse =>
      rw [hd]
      exact hcourse
  refine ⟨hcourse, hcourse.once, fun hd => ?_, fun hd => ?_, ?_⟩
  · cases h with
    | waiting ha | trying _ _ ha | linked _ _ _ ha => exact ha.timer
    | ended hd' => exact absurd (hd.symm.trans hd') (by decide)
  · cases h with
    | waiting ha | trying _ _ ha | linked _ _ _ ha => exact absurd (hd.symm.trans ha.destroyed) (by decide)
    | ended _ _ hs ht hq => exact ⟨hs, ht, hq⟩
  · cases h with
    | waiting ha | trying _ _ ha | linked _ _ _ ha => exact ha.faulted
    | ended _ hf => exact hf

theorem Stage.fail {code : ℕ} (hf : c.faulted = false) (hcourse : Course c.found (c.log ++ [.closed code]) true) :
    Stage (c.fail code) := .ended rfl hf rfl rfl rfl hcourse

/-! ### A step -/

/-- Connected. -/
structure Linked (pre : List Addr) (a : Addr) (rest : List Addr) (c : Connector Addr) : Prop where
  alive : c.Alive
  query : c.query = false
  found : c.found = pre ++ a :: rest
  log : c.log = attempts pre ++ [.tried a, .connected]

theorem Linked.fail (h : Linked pre a rest c) (code : ℕ) : Stage (c.fail code) := by
  refine Stage.fail h.alive.faulted ?_
  rw [h.log, append_assoc]
  exact .failed pre a rest code h.found

theorem Linked.stage (h : Linked pre a rest c)
    (hp : c.phase = .tlsHandshake ∨ c.phase = .httpUpgradeWrite ∨ c.phase = .httpUpgradeRead) : Stage c :=
  .linked pre a rest h.alive hp h.query h.found h.log

theorem stage_writeRequest (h : Linked pre a rest c) (hp : c.phase = .httpUpgradeWrite) : Stage (c.writeRequest env) := by
  unfold writeRequest
  cases flush env.writes c.writeBuf with
  | done => exact Linked.stage ⟨⟨h.alive.1, h.alive.2, h.alive.3⟩, h.query, h.found, h.log⟩ (.inr (.inr rfl))
  | blocked left => exact Linked.stage ⟨⟨h.alive.1, h.alive.2, h.alive.3⟩, h.query, h.found, h.log⟩ (.inr (.inl hp))
  | failed => exact h.fail _

theorem stage_doHttpUpgrade (h : Linked pre a rest c) : Stage (c.doHttpUpgrade env) := by
  have h' : Linked pre a rest { c with phase := .httpUpgradeWrite } :=
    ⟨⟨h.alive.1, h.alive.2, h.alive.3⟩, h.query, h.found, h.log⟩
  unfold doHttpUpgrade
  cases env.request with
  | none => exact h'.fail _
  | some request => exact stage_writeRequest ⟨⟨h.alive.1, h.alive.2, h.alive.3⟩, h.query, h.found, h.log⟩ rfl

theorem stage_handshake (h : Linked pre a rest c) (hp : c.phase = .tlsHandshake) : Stage (c.handshake env) := by
  unfold handshake
  cases env.tls with
  | done => exact stage_doHttpUpgrade h
  | wantRead | wantWrite => exact h.stage (.inl hp)
  | error => exact h.fail _

theorem stage_connected (ha : c.Alive) (hq : c.query = false) (hfound : c.found = pre ++ a :: rest)
    (hlog : c.log = attempts pre ++ [.tried a]) : Stage (c.connected env) := by
  have hlog' : c.log ++ [.connected] = attempts pre ++ [.tried a, .connected] := by
    rw [hlog, append_assoc]
    rfl
  unfold connected
  dsimp only
  split_ifs
  · exact stage_handshake ⟨⟨ha.1, ha.2, ha.3⟩, hq, hfound, hlog'⟩ rfl
  · exact stage_doHttpUpgrade ⟨⟨ha.1, ha.2, ha.3⟩, hq, hfound, hlog'⟩

theorem stage_tryAddrs {rs : List ConnectResult} {as : List Addr} (ha : c.Alive) (hp : c.phase = .tcpConnect)
    (hq : c.query = false) (pre : List Addr) (hfound : c.found = pre ++ as) (hlog : c.log = attempts pre) :
    Stage (tryAddrs env rs as c) := by
  induction as generalizing rs c pre with
  | nil =>
    refine Stage.fail ha.faulted ?_
    rw [List.append_nil] at hfound
    rw [hlog, ← hfound]
    exact .refused _
  | cons a rest ih =>
    have hlog' : c.log ++ [.tried a] = attempts pre ++ [.tried a] := by rw [hlog]
    unfold tryAddrs
    cases rs.head?.getD .failed with
    | noSocket | failed =>
      refine ih ⟨ha.1, ha.2, ha.3⟩ hp hq (pre ++ [a]) ?_ ?_
      · rw [hfound, append_assoc]
        rfl
      · rw [hlog', attempts_append, append_assoc]
        rfl
    | immediate => exact stage_connected ⟨ha.1, ha.2, ha.3⟩ hq hfound hlog'
    | inProgress => exact .trying pre a ⟨ha.1, ha.2, ha.3⟩ hp hq hfound hlog'

theorem stage_onWritable (h : Stage c) (halive : c.destroyed = false) : Stage (c.onWritable env) := by
  have hs := h
  unfold onWritable
  cases h with
  | waiting _ hp =>
    rw [hp]
    exact hs
  | trying pre a ha hp hq hfound hlog =>
    rw [hp]
    split_ifs
    · refine stage_tryAddrs ⟨ha.1, ha.2, ha.3⟩ rfl hq (pre ++ [a]) ?_ ?_
      · rw [hfound, append_assoc]
        rfl
      · rw [hlog, attempts_append, append_assoc]
        rfl
    · exact stage_connected ha hq hfound hlog
  | linked pre a rest ha hp hq hfound hlog =>
    have hl : Linked pre a rest c := ⟨ha, hq, hfound, hlog⟩
    rcases hp with hp | hp | hp <;> rw [hp]
    · exact stage_handshake hl hp
    · exact stage_writeRequest hl hp
    · exact hs
  | ended hd => exact absurd (hd.symm.trans halive) (by decide)

theorem stage_onResponse (d : Bytes) (h : Linked pre a rest c) (hp : c.phase = .httpUpgradeRead) :
    Stage (c.onResponse env d) := by
  have h' : Linked pre a rest { c with resp := c.resp ++ d.take (maxResponseSize - 1 - c.resp.length) } :=
    ⟨⟨h.alive.1, h.alive.2, h.alive.3⟩, h.query, h.found, h.log⟩
  unfold onResponse
  dsimp only
  cases headersEnd _ with
  | none => exact h'.stage (.inr (.inr hp))
  | some hdrEnd =>
    dsimp only
    by_cases hvalid : ¬ env.valid ((c.resp ++ d.take (maxResponseSize - 1 - c.resp.length)).take hdrEnd) = true
    · rw [if_pos hvalid]
      exact h'.fail _
    · rw [if_neg hvalid]
      refine .ended rfl h.alive.faulted rfl rfl rfl ?_
      rw [h.log, append_assoc]
      split_ifs
      · exact .opened pre a rest h.found
      · exact .failed pre a rest _ h.found

theorem stage_readResponse (h : Linked pre a rest c) (hp : c.phase = .httpUpgradeRead) : Stage (c.readResponse env) := by
  unfold readResponse
  split_ifs
  · exact h.fail _
  · cases env.read with
    | again => exact h.stage (.inr (.inr hp))
    | error | eof => exact h.fail _
    | data d => exact stage_onResponse d h hp

theorem stage_onReadable (h : Stage c) (halive : c.destroyed = false) : Stage (c.onReadable env) := by
  have hs := h
  unfold onReadable
  cases h with
  | waiting _ hp | trying _ _ _ hp =>
    rw [hp]
    exact hs
  | ended hd => exact absurd (hd.symm.trans halive) (by decide)
  | linked pre a rest ha hp hq hfound hlog =>
    have hl : Linked pre a rest c := ⟨ha, hq, hfound, hlog⟩
    rcases hp with hp | hp | hp <;> rw [hp]
    · exact stage_handshake hl hp
    · exact hs
    · exact stage_readResponse hl hp

theorem stage_sockCb (h : Stage c) (halive : c.destroyed = false) (write read : Bool)
    (hwhole : write = true → read = true → ¬ c.WriteEnds env) : Stage (c.sockCb write read env env') := by
  unfold sockCb
  cases write with
  | false =>
    cases read with
    | false => exact h
    | true =>
      rw [if_pos rfl, if_neg Bool.false_ne_true, halive, if_neg Bool.false_ne_true]
      exact stage_onReadable h halive
  | true =>
    have hw : Stage (c.onWritable env) := stage_onWritable h halive
    cases read with
    | false => exact hw
    | true =>
      have hgoes : (c.onWritable env).destroyed = false := by
        rw [Bool.eq_false_iff]
        exact fun hd => hwhole rfl rfl ((destroyed_onWritable halive).mp hd)
      rw [if_pos rfl, if_pos rfl, hgoes, if_neg Bool.false_ne_true]
      exact stage_onReadable hw hgoes

theorem stage_timeout (h : Stage c) (ht : c.timer = true) : Stage (fail closeAbnormal { c with timer := false }) := by
  cases h with
  | waiting ha hp hs hfound hlog =>
    refine Stage.fail ha.faulted ?_
    rw [hlog, hfound]
    exact .refused _
  | trying pre a ha hp hq hfound hlog =>
    refine Stage.fail ha.faulted ?_
    rw [hlog, append_assoc]
    exact .late pre a c.rest _ hfound
  | linked pre a rest ha hp hq hfound hlog =>
    refine Stage.fail ha.faulted ?_
    rw [hlog, append_assoc]
    exact .failed pre a rest _ hfound
  | ended _ _ _ ht' => exact absurd (ht.symm.trans ht') (by decide)

theorem stage_dnsCb (h : Stage c) (hq : c.query = true) (addrs : List Addr) : Stage (c.dnsCb env addrs) := by
  cases h with
  | trying _ _ _ _ hq' | linked _ _ _ _ _ hq' | ended _ _ _ _ hq' => exact absurd (hq.symm.trans hq') (by decide)
  | waiting ha hp hs hfound hlog =>
    unfold dnsCb
    split_ifs
    · refine Stage.fail ha.faulted ?_
      rw [hlog, hfound]
      exact .refused _
    · exact stage_tryAddrs ⟨ha.1, ha.2, ha.3⟩ rfl rfl [] rfl hlog

theorem stage_step {i : Input Addr} {d : Connector Addr} (h : Stage c) (hwhole : c.Whole i) (hstep : c.step i = some d) :
    Stage d := by
  unfold step at hstep
  cases i with
  | dns addrs env =>
    dsimp only at hstep
    split_ifs at hstep with hq
    obtain rfl := Option.some.inj hstep
    exact stage_dnsCb h hq addrs
  | event write read env env' =>
    dsimp only at hstep
    split_ifs at hstep with hs
    obtain rfl := Option.some.inj hstep
    have halive : c.destroyed = false := by
      cases h with
      | waiting ha | trying _ _ ha | linked _ _ _ ha => exact ha.destroyed
      | ended _ _ hs' => exact absurd (hs.symm.trans hs') (by decide)
    exact stage_sockCb h halive write read hwhole
  | timeout =>
    dsimp only at hstep
    split_ifs at hstep with ht
    obtain rfl := Option.some.inj hstep
    exact stage_timeout h ht

/-- **An attempt ends exactly once** in every run in which no event with both halves ends it in the first. -/
theorem endsOnce_of_run {useTls : Bool} (hrun : Run step Whole { useTls } c) : c.EndsOnce :=
  (hrun.preserves (fun _ _ _ h hwhole hstep => stage_step h hwhole hstep)
    (.waiting ⟨rfl, rfl, rfl⟩ rfl rfl rfl rfl)).endsOnce

/-- The first address is refused, the second one connects, and the response comes. -/
theorem endsOnce_of_run_second :
    ∃ c : Connector ℕ, c.log = [.tried 1, .refused, .tried 2, .connected, .opened] ∧ c.EndsOnce := by
  let start : ConnectEnv := { connects := [.failed, .inProgress] }
  let write : ConnectEnv := { request := some [71], writes := [.wrote 1] }
  let read : ConnectEnv := { read := .data [13, 10, 13, 10], valid := fun _ => true }
  let c0 : Connector ℕ := { useTls := false }
  let c1 := c0.dnsCb start [1, 2]
  let c2 := c1.sockCb true false write {}
  let c3 := c2.sockCb false true {} read
  have h1 : step c0 (.dns [1, 2] start) = some c1 := rfl
  have h2 : step c1 (.event true false write {}) = some c2 := rfl
  have h3 : step c2 (.event false true {} read) = some c3 := rfl
  have hw1 : Whole c0 (.dns [1, 2] start) := trivial
  have hw2 : Whole c1 (.event true false write {}) := fun _ hr => absurd hr (by decide)
  have hw3 : Whole c2 (.event false true {} read) := fun hw => absurd hw (by decide)
  exact ⟨c3, rfl, endsOnce_of_run (((Run.single hw1 h1).tail hw2 h2).tail hw3 h3)⟩

/-- The only address is refused, in an event with both halves. -/
theorem not_endsOnce_refused :
    ¬ ∀ (useTls : Bool) (c : Connector ℕ), Run step (fun _ _ => True) { useTls } c → c.EndsOnce := by
  intro h
  let start : ConnectEnv := { connects := [.inProgress] }
  let write : ConnectEnv := { soError := true }
  let c0 : Connector ℕ := { useTls := false }
  let c1 := c0.dnsCb start [1]
  have h1 : step c0 (.dns [1] start) = some c1 := rfl
  have h2 : step c1 (.event true true write {}) = some (c1.sockCb true true write {}) := rfl
  exact absurd (h false _ ((Run.single trivial h1).tail trivial h2)).sound (by decide)

end Connector

end Libx.Http
