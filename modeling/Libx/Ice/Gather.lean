import Libx.Ice.Agent

/-!
# Libx.Ice.Gather — gathering, the TURN client and the agent's entry points

The other half of ice_agent.c, and turn_client.c as far as the agent uses it.  Strings of the
configuration are parsed as the code does; names are resolved outside.
-/

namespace Libx.Ice

open Libx.Agent (Bytes)

/-- `schedule_refresh`. -/
def TurnClient.scheduleRefresh (tc : TurnClient) : TurnClient := { tc with refreshTimer := tc.lifetime ≠ 0 }

namespace Agent

variable (sort : PairSort) (e : Env)

/-! ### The end of gathering -/

/-- What `gather_check_done` and `gather_timeout_cb` do when gathering is over. -/
def endGathering (timeout : Bool) (s : Agent) : Agent :=
  let s := { s with gatheringDone := true }.emit (.endOfCandidates timeout s.operations)
  if s.remoteSet then s.restart sort else s

/-- `gather_check_done`. -/
def gatherCheckDone (s : Agent) : Agent :=
  if 0 < s.pendingGather then s
  else if s.state ≠ .gathering then s
  else if s.gatheringDone then s
  else ({ s.cancel .gather s.gatherTimer with gatherTimer := false }).endGathering sort false

/-- `gather_timeout_cb`. -/
def gatherTimeoutCb (s : Agent) : Agent :=
  let s := { s with gatherTimer := false }
  if s.state ≠ .gathering then s else s.endGathering sort true

def gatherDone (s : Agent) : Agent := { s with pendingGather := s.pendingGather - 1 }.gatherCheckDone sort

/-! ### Candidates -/

/-- A new local candidate; its line is handed out when it can be printed. -/
def addLocal (c : Candidate) (s : Agent) : Agent :=
  let s := { s with localCandidates := s.localCandidates ++ [c] }
  if c.addr.family = .unspec then s else s.emit (.candidate c)

/-- `create_srflx_candidate`. -/
def createSrflxCandidate (hostIndex : ℕ) (mapped : Addr) (localPref : ℕ) (s : Agent) : Agent :=
  if maxCandidates ≤ s.localCandidates.length then s
  else
    s.addLocal
      { type := .srflx, priority := candidatePriority .srflx localPref, addr := mapped,
        sock := (s.localCandidates.getD hostIndex default).sock }

/-! ### STUN servers -/

/-- `XICE_STUN_SERVER_COUNT_MAX`. -/
def stunServerMax : ℕ := 4

/-- `XICE_HOST_COUNT_MAX`. -/
def hostMax : ℕ := 8

/-- The loop over the predicted ports, from the `k`-th on. -/
def predictLoop (hi : ℕ) (mapped : Addr) (delta : ℕ) : ℕ → ℕ → Agent → Agent
  | 0, _, s => s
  | n + 1, k, s =>
    let port := mapped.port + k * delta
    if 65535 < port then s
    else if maxCandidates ≤ s.localCandidates.length then s
    else predictLoop hi mapped delta n (k + 1)
      (s.createSrflxCandidate hi (mapped.setPort port) (65535 - hi - k * s.hostCount))

/-- `XICE_SYMMETRIC_NAT_PORT_THRESHOLD`. -/
def symmetricNatPortThreshold : ℕ := 20

/-- `finalize_srflx_for_host`. -/
def finalizeSrflxForHost (hi : ℕ) (s : Agent) : Agent :=
  let s := s.emit (.gathered s.gatheringDone)
  let is := (List.range (s.srflxExpected hi)).filter (fun si => (s.srflxMapped hi si).isSome)
  -- with no mapped port `last_si` is -1, and the entry before the array is read
  let last := (is.getLast?.bind (s.srflxMapped hi)).getD e.stray
  let s := s.createSrflxCandidate hi last (65535 - hi)
  match is.head?, is.getLast? with
  | some firstSi, some lastSi =>
    if firstSi = lastSi then s
    else
      let delta : ℤ := last.port - ((s.srflxMapped hi firstSi).getD .unspec).port
      if delta = 0 then s
      else if delta < 0 ∨ (symmetricNatPortThreshold : ℤ) < delta then { s with localIsSymmetric := true }
      else
        let perDest := delta.toNat / (lastSi - firstSi)
        s.predictLoop hi last (if perDest = 0 then delta.toNat else perDest) s.portPredictCount 1
  | _, _ => s

/-- The mapped address of a STUN server's answer. -/
def mappedOf (msg : Option StunMsg) : Option Addr :=
  match msg with
  | none => none
  | some m =>
    if m.isSuccess then
      ((m.first attrXorMappedAddress).bind (decodeXorAddress m.txnId)).filter (fun a => a.port ≠ 0)
    else none

/-- The loop of `on_srflx_response` over the attributes. -/
def recordMapped (msg : Option StunMsg) (hi si : ℕ) (s : Agent) : Agent :=
  match mappedOf msg with
  | none => s
  | some a =>
    if hi < hostMax ∧ si < stunServerMax then
      { s with srflxMapped := Function.update s.srflxMapped hi (Function.update (s.srflxMapped hi) si (some a)) }
    else s

def countResponse (hi : ℕ) (s : Agent) : Agent :=
  if hi < hostMax then
    let s := { s with srflxReceived := Function.update s.srflxReceived hi (s.srflxReceived hi + 1) }
    if s.srflxExpected hi ≤ s.srflxReceived hi then s.finalizeSrflxForHost e hi else s
  else s

/-- `on_srflx_response`. -/
def onSrflxResponse (msg : Option StunMsg) (hi si : ℕ) (s : Agent) : Agent :=
  ((s.recordMapped msg hi si).countResponse e hi).gatherDone sort

/-- `send_stun_binding_for_host`. -/
def sendStunBindingForHost (hi si : ℕ) (addr : Addr) (s : Agent) : Agent :=
  if e.memory s.log.length then
    let t : Txn Ctx Request :=
      { txnId := e.txnId s.log.length, sock := (s.localCandidates.getD hi default).sock, dest := addr
        ctx := .srflx hi si, msg := .binding }
    let mgr := s.txnMgr.sendRaw t (s.canSend e t.sock)
    { s with txnMgr := mgr.getD s.txnMgr, log := .gatherRequest none mgr.isSome :: s.log }
  else (s.emit .noMemory).gatherDone sort

/-- The loop over the servers for one host; `sent` is counted. -/
def bindingLoop (hi : ℕ) : List (Addr × ℕ) → ℕ → Agent → Agent
  | [], sent, s => { s with srflxExpected := Function.update s.srflxExpected hi sent }
  | (addr, si) :: servers, sent, s =>
    if (s.localCandidates.getD hi default).addr.family ≠ addr.family then bindingLoop hi servers sent s
    else
      bindingLoop hi servers (sent + 1)
        ({ s with pendingGather := s.pendingGather + 1 }.sendStunBindingForHost sort e hi si addr)

/-- `send_stun_bindings_all`. -/
def sendStunBindingsAll (s : Agent) : Agent :=
  (List.range (min s.hostCount hostMax)).foldl (fun s hi => s.bindingLoop sort e hi s.stunAddrs.zipIdx 0) s

/-- `check_stun_dns_done`. -/
def checkStunDnsDone (s : Agent) : Agent :=
  if 0 < s.stunDnsPending then s
  else if s.stunAddrs = [] then s.gatherDone sort
  else ({ s with pendingGather := s.pendingGather - 1 }.sendStunBindingsAll sort e).gatherCheckDone sort

/-- A resolved server, unless its address is there already. -/
def addStunServer (result : Option Addr) (port : ℕ) (s : Agent) : Agent :=
  match result with
  | none => s
  | some a =>
    if s.stunAddrs.any (sockaddrEqual (a.setPort port)) then s
    else if s.stunAddrs.length < stunServerMax then { s with stunAddrs := s.stunAddrs ++ [a.setPort port] }
    else s

/-- `on_stun_dns_done` for a query of a server with `port`. -/
def onStunDnsDone (si port : ℕ) (result : Option Addr) (s : Agent) : Agent :=
  let s := { s with stunDnsQueries := s.stunDnsQueries.erase (si, port) }.addStunServer result port
  { s with stunDnsPending := s.stunDnsPending - 1 }.checkStunDnsDone sort e

/-! ### The TURN server -/

def turnSend (ctx : TurnCtx) (msg : Request) (s : Agent) : Agent :=
  match s.turnClient with
  | none => s
  | some tc =>
    let t : Txn TurnCtx Request :=
      { txnId := e.txnId s.log.length, sock := tc.sendArg, dest := tc.server, ctx := ctx, msg := msg }
    let mgr := tc.txnMgr.sendRaw t (tc.sendArg.isSome && e.turnOk s.log.length)
    { s with
      turnClient := some { tc with txnMgr := mgr.getD tc.txnMgr }
      log := .gatherRequest (some ctx) mgr.isSome :: s.log }

/-- `xTurnClientCreatePermission`. -/
def createPermission (peer : Addr) (s : Agent) : Agent :=
  match s.turnClient with
  | none => s
  | some tc =>
    if tc.state ≠ .allocated then s
    else if 16 ≤ tc.permissionCount then s
    else
      let n := if peer.family = .unspec then tc.permissionCount else tc.permissionCount + 1
      { s with turnClient := some { tc with permissionCount := n } }.turnSend e .permission .permission

/-- `turn_create_permissions_for_remotes`. -/
def createPermissions (s : Agent) : Agent :=
  s.remoteCandidates.foldl (fun s c => s.createPermission e c.addr) s

/-- `find_host_sock`. -/
def findHostSock (s : Agent) (f : Family) : Option Sock :=
  ((s.localCandidates.take s.hostCount).find? (fun c => c.sock.isSome && c.addr.family = f)).bind Candidate.sock

/-- `start_turn_allocate`. -/
def startTurnAllocate (turnAddr : Addr) (s : Agent) : Agent :=
  if e.memory s.log.length then
    { s with
      turnClient := some
        { server := turnAddr, sendArg := s.findHostSock turnAddr.family, state := .allocating } }.turnSend
      e .allocate .allocate
  else (s.emit .noMemory).gatherDone sort

/-- `on_turn_dns_done` for a server with `port`. -/
def onTurnDnsDone (port : ℕ) (result : Option Addr) (s : Agent) : Agent :=
  let s := { s with turnDnsQuery := none }
  match result with
  | some a => s.startTurnAllocate sort e (a.setPort port)
  | none => s.gatherDone sort

/-- A candidate of the TURN server, on the socket of the first host. -/
def addTurnCandidate (type : CandidateType) (localPref : ℕ) (addr : Addr) (s : Agent) : Agent :=
  if maxCandidates ≤ s.localCandidates.length then s
  else
    let sock := if 0 < s.hostCount then (s.localCandidates.getD 0 default).sock else none
    s.addLocal { type := type, priority := candidatePriority type localPref, addr := addr, sock := sock }

/-- `on_turn_allocated`. -/
def onTurnAllocated (relayed : Addr) (mapped : Option Addr) (s : Agent) : Agent :=
  let s := s.emit (.gathered s.gatheringDone)
  let s := match mapped with
    | none => s
    | some a => s.addTurnCandidate .srflx 65534 a
  ((s.addTurnCandidate .relay 65535 relayed).gatherDone sort).createPermissions e

/-- `on_turn_failed` with the state of the client before it. -/
def onTurnFailed (s : Agent) : Agent :=
  { s with turnClient := s.turnClient.map (fun (tc : TurnClient) => { tc with state := .failed }) }.gatherDone sort

def lifetimeOf (m : StunMsg) (old : ℕ) : ℕ :=
  m.attrs.foldl (fun n a => if a.type = attrLifetime ∧ 4 ≤ a.value.length then readBE (a.value.take 4) else n) old

/-- `xStunAttrDecodeXorMappedAddress` into a variable: a value of four bytes at least clears it. -/
def decodeInto (m : StunMsg) (a : Attr) (old : Addr) : Addr :=
  match decodeXorAddress m.txnId a with
  | some addr => addr
  | none => if a.value.length < 4 then old else .unspec

def addressOf (m : StunMsg) (type : ℕ) (old : Addr) : Addr :=
  m.attrs.foldl (fun addr a => if a.type = type then decodeInto m a addr else addr) old

def errorCodeOf (m : StunMsg) : ℕ :=
  m.attrs.foldl (fun n a => if a.type = attrErrorCode then a.errorCode.getD n else n) 0

/-- `on_allocate_response`. -/
def onAllocateResponse (msg : Option StunMsg) (s : Agent) : Agent :=
  match s.turnClient, msg with
  | none, _ => s
  | some _, none => s.onTurnFailed sort
  | some tc, some m =>
    if m.isError then
      if errorCodeOf m = 401 ∧ tc.hasCredentials = false then
        { s with turnClient := some { tc with hasCredentials := true } }.turnSend e .allocate .allocate
      else s.onTurnFailed sort
    else
      let tc :=
        { tc with
          relayedAddr := addressOf m attrXorRelayedAddress tc.relayedAddr
          mappedAddr := addressOf m attrXorMappedAddress tc.mappedAddr
          lifetime := lifetimeOf m tc.lifetime }
      let s := { s with turnClient := some tc }
      if (m.first attrXorRelayedAddress).isNone then s.onTurnFailed sort
      else
        { s with turnClient := some (TurnClient.scheduleRefresh { tc with state := .allocated }) }.onTurnAllocated
          sort e tc.relayedAddr (if (m.first attrXorMappedAddress).isSome then some tc.mappedAddr else none)

/-- `on_refresh_response`. -/
def onRefreshResponse (msg : Option StunMsg) (s : Agent) : Agent :=
  match s.turnClient, msg with
  | none, _ => s
  | some _, none => s.onTurnFailed sort
  | some tc, some m =>
    if m.isError then s.onTurnFailed sort
    else { s with turnClient := some (TurnClient.scheduleRefresh { tc with lifetime := lifetimeOf m tc.lifetime }) }

def turnComplete (ctx : TurnCtx) (again : Bool) (msg : Option StunMsg) (s : Agent) : Agent :=
  let s := s.emit (.turnResult ctx again ((msg.map StunMsg.isError).getD true))
  match ctx with
  | .allocate => s.onAllocateResponse sort e msg
  | .refresh => s.onRefreshResponse sort msg
  | .permission => s

/-- `refresh_timer_cb`. -/
def refreshTimerCb (s : Agent) : Agent :=
  match s.turnClient with
  | none => s
  | some tc =>
    let s := { s with turnClient := some { tc with refreshTimer := false } }
    if tc.state ≠ .allocated then s else s.turnSend e .refresh .refresh

/-! ### The host's calls -/

/-- `atoi`. -/
def atoi (b : Bytes) : ℤ :=
  let b := b.dropWhile (fun c => c = 32 || 9 ≤ c && c ≤ 13)
  let digits (d : Bytes) : ℕ :=
    (d.takeWhile (fun c => 48 ≤ c && c ≤ 57)).foldl (fun n c => 10 * n + (c.toNat - 48)) 0
  match b with
  | [] => 0
  | c :: cs => if c = 45 then -(digits cs) else if c = 43 then digits cs else digits (c :: cs)

/-- `parse_host_port`: the port, when the text is one. -/
def parseHostPort (b : Bytes) : Option ℕ :=
  let tail := b.reverse.takeWhile (fun c => c ≠ 58)
  let hostLen := b.length - tail.length - 1
  if tail.length = b.length then none
  else if hostLen = 0 ∨ 256 ≤ hostLen then none
  else
    let port := atoi tail.reverse
    if port ≤ 0 ∨ 65535 < port then none else some port.toNat

/-- The ports of the servers in a comma-separated list. -/
def stunServers (b : Bytes) : List ℕ :=
  ((((b.take 1023).splitOn 44).filter (fun t => t ≠ [])).filterMap
    (fun t => parseHostPort (t.dropWhile (fun c => c = 32 || c = 9)))).take stunServerMax

/-- An interface as `getifaddrs` and the calls on its socket report it. -/
structure Iface where
  addr : Addr
  up : Bool := true
  loopback : Bool := false
  linkLocal : Bool := false
  /-- The socket, unless it cannot be created, bound or asked for its name. -/
  sock : Option Sock
  deriving DecidableEq, Repr

/-- The loop over the interfaces; `ifaceIndex` host candidates are made already. -/
def hostLoop : ℕ → List Iface → Agent → Agent
  | _, [], s => s
  | ifaceIndex, i :: is, s =>
    if !i.up || i.loopback || i.addr.family = .unspec || (i.addr.family = .inet6 && (!s.conf.enableIpv6 || i.linkLocal)) then
      hostLoop ifaceIndex is s
    else if maxCandidates ≤ s.localCandidates.length then s
    else
      match i.sock with
      | none => hostLoop ifaceIndex is s
      | some sock =>
        hostLoop (ifaceIndex + 1) is
          (s.addLocal
            { type := .host, priority := candidatePriority .host (65535 - ifaceIndex), addr := i.addr
              sock := some sock })

def stunQueries (s : Agent) : List (ℕ × ℕ) :=
  match s.conf.stunServer with
  | none => []
  | some b => ((stunServers b).zipIdx.filter (fun q => e.dnsOk q.2)).map (fun q => (q.2, q.1))

def turnQuery (s : Agent) : Option ℕ :=
  match s.conf.turnServer with
  | none => none
  | some b =>
    if s.conf.turnUsername.isSome && s.conf.turnPassword.isSome && e.dnsOk stunServerMax then parseHostPort b
    else none

/-- The queries are under way: one operation for all STUN servers, and one for the TURN server. -/
def startQueries (s : Agent) : Agent :=
  let stun := s.stunQueries e
  let turn := s.turnQuery e
  { s with
    stunDnsPending := stun.length
    stunDnsQueries := stun
    turnDnsQuery := turn
    pendingGather := s.pendingGather + ((if stun = [] then 0 else 1) + (if turn.isSome then 1 else 0) : ℤ) }

def armGather (s : Agent) : Agent := { s.arm .gather with gatherTimer := true }

/-- `xIceAgentGather` behind the host candidates. -/
def gatherServers (s : Agent) : Agent :=
  let s := s.startQueries e
  if s.pendingGather = 0 then s.gatherCheckDone sort else s.armGather

def gatherHosts (ifaces : List Iface) (s : Agent) : Agent :=
  let s := s.hostLoop 0 ifaces
  { s with hostCount := s.localCandidates.length }

/-- `xIceAgentGather`; `none` is a `getifaddrs` that fails. -/
def gather (ifaces : Option (List Iface)) (s : Agent) : Agent :=
  if s.state ≠ .new then s
  else
    let s := s.setState .gathering
    match ifaces with
    | none => s.setState .failed
    | some is =>
      let s := s.gatherHosts is
      if s.hostCount = 0 then s.setState .failed else s.gatherServers sort e

/-- A description as `xIceSdpDecode` reads it. -/
structure Description where
  iceUfrag : Bytes
  icePwd : Bytes
  candidates : List Candidate
  deriving DecidableEq, Repr

/-- `xIceAgentSetRemoteDescription` for a description that can be read. -/
def setRemoteDescription (d : Description) (s : Agent) : Agent :=
  let s := { s with remoteUfrag := d.iceUfrag, remotePwd := d.icePwd, remoteSet := true }
  let s := (s.addRemotes d.candidates).createPermissions e
  if s.gatheringDone ∧ s.state ≠ .checking then s.restart sort else s

/-- The pairs of the new remote candidate at `r`, and their checks. -/
def trickle (r : ℕ) (s : Agent) : Agent :=
  if s.state = .checking then
    let s := s.addPairs (fun _ => true) r
    s.sendChecks e (fun _ p => p.remoteIx = r && p.state = .frozen) (List.range s.pairs.length)
  else s

def restartFailed (s : Agent) : Agent :=
  if s.state = .failed ∧ s.gatheringDone then { s with nominated := none }.restart sort else s

/-- `xIceAgentAddRemoteCandidate` for a candidate that can be read. -/
def addRemoteCandidate (c : Candidate) (s : Agent) : Agent :=
  if maxCandidates ≤ s.remoteCandidates.length then s
  else if s.remoteCandidates.any (fun r => sockaddrEqual r.addr c.addr) then s
  else
    let r := s.remoteCandidates.length
    let s := { s with remoteCandidates := s.remoteCandidates ++ [c] }.createPermission e c.addr
    (s.trickle e r).restartFailed sort

/-! ### What arrives on a socket -/

def complete (ctx : Ctx) (msg : Option StunMsg) (s : Agent) : Agent :=
  match ctx with
  | .check i _ => s.onCheckResponse e msg i
  | .srflx hi si => s.onSrflxResponse sort e msg hi si

/-- `xStunTxnMgrOnResponse`.  The context of a completed transaction has been freed. -/
def onResponse (msg : StunMsg) (s : Agent) : Agent :=
  match s.txnMgr.find msg.txnId with
  | none => s
  | some i =>
    match s.txnMgr[i]? with
    | none => s
    | some t =>
      let s := { s with txnMgr := s.txnMgr.free i }
      if t.cancelled then s.emit .lateResult else s.complete sort e t.ctx (some msg)

/-- `xStunTxnMgrOnResponse` for the TURN client, whose contexts are not freed; `none` when the response
is not its own. -/
def turnOnResponse (msg : StunMsg) (s : Agent) : Option Agent :=
  match s.turnClient with
  | none => none
  | some tc =>
    match tc.txnMgr.find msg.txnId with
    | none => none
    | some i =>
      match tc.txnMgr[i]? with
      | none => none
      | some t =>
        some ({ s with turnClient := some { tc with txnMgr := tc.txnMgr.free i } }.turnComplete
          sort e t.ctx t.cancelled (some msg))

/-- `USERNAME must be "local_ufrag:remote_ufrag"`. -/
def username (s : Agent) : Bytes := s.iceUfrag ++ 58 :: s.remoteUfrag

/-- The validation of `handle_incoming_binding_request`: every USERNAME is right, and the last
MESSAGE-INTEGRITY verifies. -/
def validate (hmac : Bytes → Bytes → Bytes) (s : Agent) (msg : StunMsg) (raw : Bytes) : Bool :=
  msg.attrs.all (fun a => a.type ≠ attrUsername || a.value = s.username) &&
    (msg.first attrUsername).isSome &&
    ((msg.last attrMessageIntegrity).map (fun a => verifyMessageIntegrity hmac raw a s.icePwd)).getD false

/-- `on_udp_recv` for a datagram in the STUN range; the others do not reach the agent's state. -/
def onUdpRecv (hmac : Bytes → Bytes → Bytes) (sock : Sock) (src : Addr) (datagram : Bytes) (s : Agent) : Agent :=
  let raw := datagram.take 2048
  if 3 < raw.headD 255 then s
  else
    match decode raw with
    | none => s
    | some msg =>
      if msg.isRequest then
        if s.validate hmac msg raw then
          s.handleRequest e sock src msg.txnId (msg.first attrUseCandidate).isSome
        else s
      else if msg.isIndication then s
      else (s.turnOnResponse sort e msg).getD (s.onResponse sort e msg)

/-! ### Steps -/

/-- A call into the agent. -/
inductive Input
  | gather (ifaces : Option (List Iface))
  | setRemoteDescription (d : Description)
  | addRemoteCandidate (c : Candidate)
  | setRole (r : Role)
  | recv (sock : Sock) (src : Addr) (datagram : Bytes)
  /-- The timer of the `i`-th transaction, of the agent and of its TURN client. -/
  | retransmit (i : ℕ)
  | turnRetransmit (i : ℕ)
  | timer (t : Timer)
  | turnRefresh
  | stunDns (si port : ℕ) (result : Option Addr)
  | turnDns (port : ℕ) (result : Option Addr)

def onTimer (t : Timer) (s : Agent) : Agent :=
  match t with
  | .check => s.checkPacingCb e
  | .gather => s.gatherTimeoutCb sort
  | .checkTimeout => s.checkTimeoutCb e
  | .consent => s.consentCb e
  | .aggressive .spray => s.aggressivePacingCb e
  | .aggressive .keepalive => s.symmetricKeepaliveCb e

def resend (t : Txn Ctx Request) (s : Agent) : Agent :=
  match t.check, t.msg, t.sock with
  | some c, .check use, some sock =>
    s.emit (if s.canSend e t.sock then .request sock c.dest c.txnId use else .unsent)
  | _, _, _ => s.emit .unsent

/-- `txn_retransmit` of the `i`-th transaction of the agent. -/
def onRetransmit (i : ℕ) (s : Agent) : Agent :=
  match s.txnMgr.retransmit i with
  | (_, .idle) => s
  | (mgr, .timeout t) => { s with txnMgr := mgr }.complete sort e t.ctx none
  | (mgr, .again t) => { s with txnMgr := mgr }.resend e t

/-- `txn_retransmit` of the `i`-th transaction of the TURN client. -/
def onTurnRetransmit (i : ℕ) (s : Agent) : Agent :=
  match s.turnClient with
  | none => s
  | some tc =>
    match tc.txnMgr.retransmit i with
    | (_, .idle) => s
    | (mgr, .timeout t) =>
      { s with turnClient := some { tc with txnMgr := mgr } }.turnComplete sort e t.ctx false none
    | (mgr, .again _) => { s with turnClient := some { tc with txnMgr := mgr } }

/-- One call into the agent with the outside's answers; `none` when it cannot come. -/
def step (hmac : Bytes → Bytes → Bytes) (s : Agent) (m : Env × Input) : Option Agent :=
  let e := m.1
  match m.2 with
  | .gather ifaces => some (s.gather sort e ifaces)
  | .setRemoteDescription d => some (s.setRemoteDescription sort e d)
  | .addRemoteCandidate c => some (s.addRemoteCandidate sort e c)
  | .setRole r => some { s with role := r }
  | .recv sock src datagram => some (s.onUdpRecv sort e hmac sock src datagram)
  | .retransmit i => some (s.onRetransmit sort e i)
  | .turnRetransmit i => some (s.onTurnRetransmit sort e i)
  | .timer t => if t ∈ s.timers then some ({ s with timers := s.timers.erase t }.onTimer sort e t) else none
  | .turnRefresh =>
    if (s.turnClient.map TurnClient.refreshTimer).getD false then some (s.refreshTimerCb e) else none
  | .stunDns si port result =>
    if (si, port) ∈ s.stunDnsQueries then some (s.onStunDnsDone sort e si port result) else none
  | .turnDns port result =>
    if s.turnDnsQuery = some port then some (s.onTurnDnsDone sort e port result) else none

/-- `xIceAgentCreate`. -/
def create (conf : Conf) (ufrag pwd : Bytes) : Agent where
  conf := conf
  role := conf.role
  iceUfrag := ufrag
  icePwd := pwd
  portPredictCount :=
    if 0 < conf.portPredictCount ∧ conf.portPredictCount ≤ 10 then conf.portPredictCount.toNat else 5

end Agent

end Libx.Ice
