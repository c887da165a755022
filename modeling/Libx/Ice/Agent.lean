import Libx.Ice.Stun
import Libx.Ice.Txn

/-!
# Libx.Ice.Agent — the connectivity checks of ice_agent.c

The state of an `xIceAgent_` and the functions that check, nominate and restart.  Each function takes
what the outside answers to it as an `Env`: the results of sends and allocations and the random bytes,
by the length of the log at the time they are asked for.

Timers always arm, and the host's callbacks do not call back into the agent.  What no function of the
agent reads is left out: `trickle`, `remote_gathering_done`, `remote_is_symmetric`, `consent_failures`
and the foundations and related addresses of candidates.
-/

namespace Libx.Ice

open Libx.Agent (Bytes)

/-- `xIceAgentState`. -/
inductive AgentState
  | new | gathering | checking | connected | completed | failed | closed
  deriving DecidableEq, Repr

/-- `xIceAgentRole`. -/
inductive Role
  | controlling | controlled
  deriving DecidableEq, Repr

/-- What `msg_buf` of a transaction holds. -/
inductive Request
  | check (useCandidate : Bool)
  | binding
  | allocate
  | refresh
  | permission
  deriving DecidableEq, Repr

/-- `on_complete` with its context: `on_check_response` with a `CheckCtx`, or `on_srflx_response` with a
`SrflxCtx`.  `ends` are the candidates the check was sent on, which the code does not keep. -/
inductive Ctx
  | check (pair : ℕ) (ends : ℕ × ℕ)
  | srflx (host server : ℕ)
  deriving DecidableEq, Repr

/-- A check that is under way: the pair it points to, the candidates it was sent on, and its request. -/
structure Check where
  pair : ℕ
  ends : ℕ × ℕ
  txnId : Bytes
  sock : Option Sock
  dest : Addr
  deriving DecidableEq, Repr

def Txn.check (t : Txn Ctx Request) : Option Check :=
  match t.ctx with
  | .check i ends => if t.live then some ⟨i, ends, t.txnId, t.sock, t.dest⟩ else none
  | .srflx .. => none

def checksOf (mgr : TxnMgr Ctx Request) : List Check := mgr.filterMap Txn.check

def Txn.binding (t : Txn Ctx Request) : Bool :=
  match t.ctx with
  | .check .. => false
  | .srflx .. => t.live

/-- `xTurnState`. -/
inductive TurnState
  | idle | allocating | allocated | failed
  deriving DecidableEq, Repr

/-- `on_complete` of the TURN client's transactions. -/
inductive TurnCtx
  | allocate | refresh | permission
  deriving DecidableEq, Repr

def Txn.allocation (t : Txn TurnCtx Request) : Bool := t.ctx = .allocate && t.live

/-- `xTurnClient`, without the texts of its credentials; its channels are never bound. -/
structure TurnClient where
  server : Addr
  sendArg : Option Sock
  state : TurnState := .idle
  txnMgr : TxnMgr TurnCtx Request := []
  relayedAddr : Addr := .unspec
  mappedAddr : Addr := .unspec
  lifetime : ℕ := 0
  refreshTimer : Bool := false
  hasCredentials : Bool := false
  permissionCount : ℕ := 0
  deriving DecidableEq, Repr

/-- The two callbacks of `aggressive_timer`. -/
inductive Aggressive
  | spray | keepalive
  deriving DecidableEq, Repr

/-- The callbacks of the loop's timers. -/
inductive Timer
  | check | gather | checkTimeout | consent
  | aggressive (cb : Aggressive)
  deriving DecidableEq, Repr

/-- Where a pair was nominated. -/
inductive Nominator
  | tryNominate | checkTimeout | peer
  deriving DecidableEq, Repr

/-- How a check ended: a success, a 487, or a timeout or another error. -/
inductive CheckResult
  | success | conflict | failure
  deriving DecidableEq, Repr

/-- What the agent does. -/
inductive Event
  /-- `send_check` on a pair, its state before, and whether a transaction waits for the answer. -/
  | check (pair : ℕ) (was : PairState) (registered : Bool)
  | request (sock : Sock) (dest : Addr) (txnId : Bytes) (useCandidate : Bool)
  /-- The same through the TURN server. -/
  | relayed (dest : Addr) (txnId : Bytes) (useCandidate : Bool)
  | response (sock : Sock) (dest : Addr) (txnId : Bytes)
  | unsent
  /-- `on_check_response` for a pair, and whether it is the nominated one. -/
  | result (pair : ℕ) (r : CheckResult) (nominated : Bool)
  /-- A completed transaction is completed again, with a context that was freed. -/
  | lateResult
  /-- `generate_pairs`: the pairs before and after, the pairs that uncompleted checks point to, and
  `nominated`. -/
  | generated (old new : List Pair) (outstanding : List ℕ) (nominated : Option ℕ)
  /-- `start_aggressive_spray` and how many pairs it made. -/
  | sprayed (count : ℕ)
  | nominated (pair : ℕ) (ends : ℕ × ℕ) (origin : Nominator)
  /-- A USE-CANDIDATE request that passed the validation. -/
  | useCandidate (sock : Sock) (src : Addr)
  | state (st : AgentState)
  | candidate (c : Candidate)
  /-- The end of gathering, and the operations that are under way. -/
  | endOfCandidates (timeout : Bool) (operations : ℕ)
  /-- A STUN or TURN request and whether a transaction waits for the answer. -/
  | gatherRequest (ctx : Option TurnCtx) (registered : Bool)
  /-- The context of a request cannot be allocated. -/
  | noMemory
  /-- All STUN servers have answered for a host, or the TURN server has allocated; `late` when
  `gathering_done` is set. -/
  | gathered (late : Bool)
  /-- A TURN transaction has ended; `again` when it had ended before. -/
  | turnResult (ctx : TurnCtx) (again failed : Bool)
  deriving DecidableEq, Repr

/-- What the outside answers to a step. -/
structure Env where
  /-- The result of `send_fn` and of the allocations before it. -/
  sendOk : ℕ → Bool
  /-- The same for what goes to the TURN server. -/
  turnOk : ℕ → Bool
  /-- The allocation of a context of the gathering. -/
  memory : ℕ → Bool
  /-- `xDnsResolve` for a server. -/
  dnsOk : ℕ → Bool
  txnId : ℕ → Bytes
  /-- The random ports of the spray. -/
  port : ℕ → ℕ
  /-- What stands before an array that is read at index -1. -/
  stray : Addr

/-- What the agent reads of `xIceConf`. -/
structure Conf where
  role : Role
  enableIpv6 : Bool := false
  stunServer : Option Bytes := none
  portPredictCount : ℤ := 0
  turnServer : Option Bytes := none
  turnUsername : Option Bytes := none
  turnPassword : Option Bytes := none
  deriving DecidableEq, Repr

/-- `xIceAgent_`. -/
structure Agent where
  conf : Conf
  state : AgentState := .new
  role : Role
  iceUfrag : Bytes
  icePwd : Bytes
  remoteUfrag : Bytes := []
  remotePwd : Bytes := []
  remoteSet : Bool := false
  localCandidates : List Candidate := []
  remoteCandidates : List Candidate := []
  pairs : List Pair := []
  nominated : Option ℕ := none
  txnMgr : TxnMgr Ctx Request := []
  turnClient : Option TurnClient := none
  /-- The loop's pending timers, and which of the handles that are read are not NULL. -/
  timers : List Timer := []
  gatherTimer : Bool := false
  checkTimeout : Bool := false
  aggressiveTimer : Option Aggressive := none
  checkIndex : ℕ := 0
  gatheringDone : Bool := false
  hostCount : ℕ := 0
  pendingGather : ℤ := 0
  stunAddrs : List Addr := []
  stunDnsPending : ℕ := 0
  /-- `stun_dns_queries`: the queries under way, with the ports of their servers. -/
  stunDnsQueries : List (ℕ × ℕ) := []
  /-- `turn_dns_query`, with `turn_port`. -/
  turnDnsQuery : Option ℕ := none
  /-- `srflx_full_mapped`, for the places whose `srflx_mapped` is not 0. -/
  srflxMapped : ℕ → ℕ → Option Addr := fun _ _ => none
  srflxReceived : ℕ → ℕ := fun _ => 0
  srflxExpected : ℕ → ℕ := fun _ => 0
  portPredictCount : ℕ
  localIsSymmetric : Bool := false
  aggressiveMode : Bool := false
  sprayIndex : ℕ := 0
  log : List Event := []

namespace Agent

variable (sort : PairSort) (e : Env)

/-! ### Small changes of the state -/

def emit (ev : Event) (s : Agent) : Agent := { s with log := ev :: s.log }

/-- `set_state`; the host hears of a state that is new. -/
def setState (st : AgentState) (s : Agent) : Agent :=
  { s with state := st, log := if s.state = st then s.log else .state st :: s.log }

def setPair (i : ℕ) (st : PairState) (s : Agent) : Agent :=
  { s with pairs := s.pairs.modify i (fun p => { p with state := st }) }

/-- `xEventLoopTimerAfter`. -/
def arm (t : Timer) (s : Agent) : Agent := { s with timers := t :: s.timers }

/-- `xEventLoopTimerCancel`, when the handle is not NULL. -/
def cancel (t : Timer) (set : Bool) (s : Agent) : Agent :=
  { s with timers := if set then s.timers.erase t else s.timers }

def localOf (s : Agent) (p : Pair) : Candidate := s.localCandidates.getD p.localIx default

def remoteOf (s : Agent) (p : Pair) : Candidate := s.remoteCandidates.getD p.remoteIx default

/-- The uncompleted checks, and the pairs they point to. -/
def checks (s : Agent) : List Check := checksOf s.txnMgr

def outstanding (s : Agent) : List ℕ := s.checks.map Check.pair

def bindings (s : Agent) : ℕ := s.txnMgr.countP Txn.binding

def allocations (s : Agent) : ℕ :=
  (s.turnClient.map (fun (tc : TurnClient) => tc.txnMgr.countP Txn.allocation)).getD 0

/-- The operations of the gathering that have been started and not finished: the resolution of the STUN
servers' names, the requests to the STUN servers, and the TURN server's name or allocation. -/
def operations (s : Agent) : ℕ :=
  (if s.stunDnsQueries = [] then 0 else 1) + s.bindings + (if s.turnDnsQuery.isSome then 1 else 0) + s.allocations

/-! ### Pairs -/

/-- A new pair of the candidates `l` and `r` at their places. -/
def newPair (s : Agent) (l r : Candidate × ℕ) : Pair where
  localIx := l.2
  remoteIx := r.2
  priority :=
    if s.role = .controlling then pairPriority l.1.priority r.1.priority
    else pairPriority r.1.priority l.1.priority

def compatible (l r : Candidate) : Bool :=
  l.componentId = r.componentId && l.addr.family = r.addr.family

/-- The two loops of `generate_pairs`. -/
def allPairs (s : Agent) : List Pair :=
  (s.localCandidates.zipIdx.flatMap (fun l =>
    (s.remoteCandidates.zipIdx.filter (fun r => compatible l.1 r.1)).map (fun r => s.newPair l r))).take maxPairs

/-- `generate_pairs`. -/
def generatePairs (s : Agent) : Agent :=
  let new := sort.sort s.allPairs
  { s with pairs := new, log := .generated s.pairs new s.outstanding s.nominated :: s.log }

/-- The loop that pairs one remote candidate with the local ones of the kinds `ok`. -/
def addPairs (ok : CandidateType → Bool) (r : ℕ) (s : Agent) : Agent :=
  let c := s.remoteCandidates.getD r default
  let ls := s.localCandidates.zipIdx.filter (fun l => ok l.1.type && compatible l.1 c)
  { s with pairs := s.pairs ++ (ls.map (fun l => s.newPair l (c, r))).take (maxPairs - s.pairs.length) }

/-! ### send_check -/

/-- `sock_stun_send` needs a socket. -/
def canSend (e : Env) (s : Agent) (sock : Option Sock) : Bool := sock.isSome && e.sendOk s.log.length

/-- `xTurnClientSendData`. -/
def turnSends (e : Env) (s : Agent) : Bool :=
  match s.turnClient with
  | none => false
  | some tc => tc.state = .allocated && e.turnOk s.log.length

/-- The pair's check goes through the TURN server as well. -/
def viaTurn (s : Agent) (p : Pair) : Bool := (s.localOf p).type = .relay && s.turnClient.isSome

/-- The transaction of a check on the `i`-th pair. -/
def checkTxn (s : Agent) (i : ℕ) (p : Pair) : Txn Ctx Request where
  txnId := e.txnId s.log.length
  sock := (s.localOf p).sock
  dest := (s.remoteOf p).addr
  ctx := .check i p.ends
  msg := .check (s.role = .controlling)

def checkSent (s : Agent) (p : Pair) (t : Txn Ctx Request) (registered : Bool) : List Event :=
  let use := decide (s.role = .controlling)
  (match registered, t.sock with
    | true, some sock => [.request sock t.dest t.txnId use]
    | _, _ => []) ++
  (if s.viaTurn p && s.turnSends e then [.relayed t.dest t.txnId use] else [])

/-- `send_check`. -/
def sendCheck (i : ℕ) (s : Agent) : Agent :=
  match s.pairs[i]? with
  | none => s
  | some p =>
    let t := s.checkTxn e i p
    let mgr := if s.viaTurn p && !s.turnSends e then none else s.txnMgr.sendRaw t (s.canSend e t.sock)
    { s.setPair i .inProgress with
      txnMgr := mgr.getD s.txnMgr
      log := .check i p.state mgr.isSome :: s.checkSent e p t mgr.isSome ++ s.log }

/-- The loop that sends checks on some of the pairs `is`, tested as they are reached. -/
def sendChecks (pick : Agent → Pair → Bool) : List ℕ → Agent → Agent
  | [], s => s
  | i :: is, s =>
    match s.pairs[i]? with
    | none => sendChecks pick is s
    | some p => sendChecks pick is (if pick s p then s.sendCheck e i else s)

/-! ### Nomination -/

def isPrflx (s : Agent) (p : Pair) : Bool := (s.remoteOf p).type = .prflx

/-- `best`: the first succeeded pair whose remote candidate is not peer-reflexive. -/
def best (s : Agent) : Option ℕ := s.pairs.findIdx? (fun p => p.state = .succeeded && !s.isPrflx p)

/-- `best_prflx`. -/
def bestPrflx (s : Agent) : Option ℕ := s.pairs.findIdx? (fun p => p.state = .succeeded && s.isPrflx p)

def anyInProgress (s : Agent) : Bool := s.pairs.any (fun p => p.state = .inProgress)

def anyNonPrflxInProgress (s : Agent) : Bool := s.pairs.any (fun p => p.state = .inProgress && !s.isPrflx p)

def anySucceeded (s : Agent) : Bool := s.pairs.any (fun p => p.state = .succeeded)

def hasRemoteSrflx (s : Agent) : Bool := s.remoteCandidates.any (fun c => c.type = .srflx)

/-- The assignments to `nominated`. -/
def nominate (i : ℕ) (origin : Nominator) (s : Agent) : Agent :=
  { s with
    nominated := some i
    pairs := s.pairs.modify i (fun p => { p with nominated := true })
    log := .nominated i ((s.pairs[i]?.map Pair.ends).getD (0, 0)) origin :: s.log }

/-- `start_consent`. -/
def startConsent (s : Agent) : Agent := s.arm .consent

def cancelCheckTimeout (s : Agent) : Agent := { s.cancel .checkTimeout s.checkTimeout with checkTimeout := false }

def cancelAggressive (s : Agent) : Agent :=
  { s with
    timers := match s.aggressiveTimer with
      | none => s.timers
      | some cb => s.timers.erase (.aggressive cb)
    aggressiveTimer := none }

/-- The timer of `aggressive_timer` is set. -/
def armAggressive (cb : Aggressive) (s : Agent) : Agent := { s.arm (.aggressive cb) with aggressiveTimer := some cb }

def extendCheckTimeout (s : Agent) : Agent :=
  { s.cancelCheckTimeout.arm .checkTimeout with checkTimeout := true }

/-! ### Port spray -/

/-- `srflx_ips`: the first addresses of up to eight remote srflx hosts. -/
def srflxIps (s : Agent) : List Addr :=
  ((s.remoteCandidates.filter (fun c => c.type = .srflx)).foldl
    (fun ips c => if ips.any (sockaddrIpEqual c.addr) then ips else ips ++ [c.addr]) []).take 8

/-- `XICE_BIRTHDAY_SPRAY_COUNT`. -/
def birthdaySprayCount : ℕ := 256

/-- The ports of the spray, each with its target and its number for the target. -/
def sprayTargets (ips : List Addr) : List (Addr × ℕ) :=
  ips.flatMap (fun ip => (List.range birthdaySprayCount).map (fun n => (ip, n)))

/-- One round of the spray loop: a predicted remote candidate and its pairs. -/
def sprayOne (port n : ℕ) (ip : Addr) (s : Agent) : Agent :=
  let c : Candidate :=
    { type := .srflx, priority := candidatePriority .srflx (200 + n), addr := ip.setPort (1024 + port % 64512) }
  let s := { s with remoteCandidates := s.remoteCandidates ++ [c] }
  s.addPairs (fun k => k = .host || k = .srflx) (s.remoteCandidates.length - 1)

/-- The spray loop, `k` rounds into it. -/
def sprayLoop : ℕ → List (Addr × ℕ) → Agent → Agent
  | _, [], s => s
  | k, (ip, n) :: ts, s =>
    if maxCandidates ≤ s.remoteCandidates.length then s
    else sprayLoop (k + 1) ts (s.sprayOne (e.port k) n ip)

/-- `start_aggressive_spray`. -/
def startAggressiveSpray (s : Agent) : Agent :=
  if s.aggressiveMode then s
  else
    let s := { s with aggressiveMode := true }.extendCheckTimeout
    let start := s.pairs.length
    if s.srflxIps = [] then { s with aggressiveMode := false }
    else
      let s := s.sprayLoop e 0 (sprayTargets s.srflxIps)
      let count := s.pairs.length - start
      let s := s.emit (.sprayed count)
      if count = 0 then { s with aggressiveMode := false }
      else { s with sprayIndex := start }.armAggressive .spray

/-- `try_nominate`. -/
def tryNominate (s : Agent) : Agent :=
  if s.state ≠ .checking then s
  else if s.nominated.isSome then s
  else if s.anySucceeded && s.pairs.length ≤ s.checkIndex then
    if s.best.isNone && s.bestPrflx.isSome && s.anyNonPrflxInProgress then s
    else
      match s.best.or s.bestPrflx with
      | none => s
      | some i =>
        ((s.nominate i .tryNominate).setState .connected).startConsent.cancelCheckTimeout.cancelAggressive
  else if !s.anyInProgress && !s.anySucceeded then
    if !s.localIsSymmetric && !s.aggressiveMode && s.hasRemoteSrflx then s.startAggressiveSpray e
    else s.setState .failed
  else s

/-! ### Results of checks -/

/-- `msg` of `on_check_response` by its branch. -/
def checkResult : Option StunMsg → CheckResult
  | none => .failure
  | some msg => if msg.isSuccess then .success else if msg.errCode = 487 then .conflict else .failure

def switchRole (s : Agent) : Agent :=
  { s with role := if s.role = .controlling then .controlled else .controlling }

/-- `on_check_response` for a timeout (`none`), a success or an error response. -/
def onCheckResponse (msg : Option StunMsg) (i : ℕ) (s : Agent) : Agent :=
  let r := checkResult msg
  let s := s.emit (.result i r (s.nominated = some i))
  match r with
  | .failure => (s.setPair i .failed).tryNominate e
  | .success => (s.setPair i .succeeded).tryNominate e
  | .conflict => (s.switchRole.setPair i .waiting).sendCheck e i

/-! ### Timers of the checks -/

/-- `schedule_next_check`. -/
def scheduleNextCheck (s : Agent) : Agent := if s.state ≠ .checking then s else s.arm .check

/-- The loop of `check_pacing_cb`: the next pair to send from `check_index` on, if there is one. -/
def nextToCheck (s : Agent) : Option ℕ :=
  (s.pairs.drop s.checkIndex).findIdx? Pair.pending |>.map (s.checkIndex + ·)

/-- `check_pacing_cb`. -/
def checkPacingCb (s : Agent) : Agent :=
  if s.state ≠ .checking then s
  else
    match s.nextToCheck with
    | some i => ({ s with checkIndex := i + 1 }.sendCheck e i).scheduleNextCheck
    | none => { s with checkIndex := max s.checkIndex s.pairs.length }.tryNominate e

/-- `symmetric_keepalive_cb`. -/
def symmetricKeepaliveCb (s : Agent) : Agent :=
  let s := { s with aggressiveTimer := none }
  if s.state ≠ .checking then s
  else if s.nominated.isSome then s
  else
    let s := s.sendChecks e (fun s p => (s.remoteOf p).type = .srflx) (List.range s.pairs.length)
    s.armAggressive .keepalive

/-- `start_symmetric_keepalive`. -/
def startSymmetricKeepalive (s : Agent) : Agent :=
  if s.aggressiveMode then s
  else ({ s with aggressiveMode := true }.extendCheckTimeout).symmetricKeepaliveCb e

/-- `check_timeout_cb`. -/
def checkTimeoutCb (s : Agent) : Agent :=
  let s := { s with checkTimeout := false }
  if s.state ≠ .checking then s
  else if s.nominated.isSome then s
  else
    match s.best.or s.bestPrflx with
    | some i => (s.nominate i .checkTimeout).setState .connected
    | none =>
      if !s.localIsSymmetric && !s.aggressiveMode && s.hasRemoteSrflx then s.startAggressiveSpray e
      else if s.localIsSymmetric && !s.aggressiveMode && s.hasRemoteSrflx then s.startSymmetricKeepalive e
      else s.cancelAggressive.setState .failed

/-- The loop of `aggressive_pacing_cb`: `sent` checks are out already. -/
def sprayBatch : ℕ → ℕ → Agent → Agent
  | 0, _, s => s
  | n + 1, sent, s =>
    if s.pairs.length ≤ s.sprayIndex ∨ 4 ≤ sent then s
    else
      let i := s.sprayIndex
      let s := { s with sprayIndex := i + 1 }
      if (s.pairs[i]?.map Pair.pending).getD false then sprayBatch n (sent + 1) (s.sendCheck e i)
      else sprayBatch n sent s

/-- `aggressive_pacing_cb`. -/
def aggressivePacingCb (s : Agent) : Agent :=
  let s := { s with aggressiveTimer := none }
  if s.state ≠ .checking then s
  else if s.nominated.isSome then s
  else
    let s := s.sprayBatch e s.pairs.length 0
    if s.sprayIndex < s.pairs.length then s.armAggressive .spray else s

/-- `start_checks`. -/
def startChecks (s : Agent) : Agent :=
  if s.pairs = [] then s.setState .failed
  else
    let s := { s.setState .checking with checkIndex := 0 }.scheduleNextCheck
    { s.arm .checkTimeout with checkTimeout := true }

/-- `consent_cb`. -/
def consentCb (s : Agent) : Agent :=
  if s.state ≠ .connected ∧ s.state ≠ .completed then s
  else
    match s.nominated.bind (s.pairs[·]?) with
    | none => s
    | some p =>
      let t := s.checkTxn e 0 p
      let ev : Event :=
        if s.viaTurn p then if s.turnSends e then .relayed t.dest t.txnId false else .unsent
        else
          match t.sock with
          | some sock => if s.canSend e t.sock then .request sock t.dest t.txnId false else .unsent
          | none => .unsent
      (s.emit ev).arm .consent

/-! ### Incoming requests -/

/-- The peer-reflexive candidate of an unknown source. -/
def addPrflx (src : Addr) (s : Agent) : Agent :=
  if s.remoteCandidates.any (fun c => sockaddrEqual src c.addr) then s
  else if maxCandidates ≤ s.remoteCandidates.length then s
  else
    let c : Candidate := { type := .prflx, priority := candidatePriority .prflx 65535, addr := src }
    let s := { s with remoteCandidates := s.remoteCandidates ++ [c] }
    if s.state = .checking then s.addPairs (fun _ => true) (s.remoteCandidates.length - 1) else s

/-- The pair of the triggered check: the first whose local socket and remote address are the request's. -/
def triggered (s : Agent) (sock : Sock) (src : Addr) : Option ℕ :=
  s.pairs.findIdx? (fun p => (s.localOf p).sock = some sock && sockaddrEqual src (s.remoteOf p).addr)

def triggerCheck (sock : Sock) (src : Addr) (s : Agent) : Agent :=
  if s.state ≠ .checking then s
  else
    match s.triggered sock src with
    | none => s
    | some i =>
      if (s.pairs[i]?.map (fun p => p.state = .frozen || p.state = .waiting || p.state = .failed)).getD false then
        s.sendCheck e i
      else s

/-- The nomination by the peer: the first pair with the request's source. -/
def nominateByPeer (src : Addr) (s : Agent) : Agent :=
  match s.pairs.findIdx? (fun p => sockaddrEqual src (s.remoteOf p).addr) with
  | none => s
  | some i => (((s.nominate i .peer).setPair i .succeeded).setState .connected).startConsent

/-- `handle_incoming_binding_request` behind its validation. -/
def handleRequest (sock : Sock) (src : Addr) (txnId : Bytes) (useCandidate : Bool) (s : Agent) : Agent :=
  let s := s.emit (if e.sendOk s.log.length then .response sock src txnId else .unsent)
  let s := if useCandidate then s.emit (.useCandidate sock src) else s
  let s := (s.addPrflx src).triggerCheck e sock src
  if useCandidate && s.role = .controlled && s.nominated.isNone then s.nominateByPeer src else s

/-! ### The host's calls -/

/-- A remote candidate unless its address is known. -/
def addRemote (c : Candidate) (s : Agent) : Agent :=
  if s.remoteCandidates.any (fun r => sockaddrEqual r.addr c.addr) then s
  else { s with remoteCandidates := s.remoteCandidates ++ [c] }

/-- The loop over the candidates of a description. -/
def addRemotes : List Candidate → Agent → Agent
  | [], s => s
  | c :: cs, s => if maxCandidates ≤ s.remoteCandidates.length then s else addRemotes cs (s.addRemote c)

def restart (s : Agent) : Agent := (s.generatePairs sort).startChecks

end Agent

end Libx.Ice
