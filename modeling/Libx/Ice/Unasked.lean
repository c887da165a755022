import Libx.Ice.Frame

/-!
# Libx.Ice.Unasked — what leaves the STUN servers' part alone

The requests that wait for a STUN server's answer, and what is kept of the answers for each host.
-/

namespace Libx.Ice

open Libx.Agent (Bytes)

/-- The host and the server of an uncompleted request to a STUN server. -/
def Txn.asks (t : Txn Ctx Request) : Option (ℕ × ℕ) :=
  match t.ctx with
  | .check .. => none
  | .srflx hi si => if t.live then some (hi, si) else none

def askedOf (mgr : TxnMgr Ctx Request) : List (ℕ × ℕ) := mgr.filterMap Txn.asks

theorem askedOf_cons (t : Txn Ctx Request) (m : TxnMgr Ctx Request) :
    askedOf (t :: m) = t.asks.toList ++ askedOf m := by
  unfold askedOf
  rw [List.filterMap_cons]
  cases t.asks with
  | none | some q => rfl

theorem askedOf_concat (m : TxnMgr Ctx Request) (t : Txn Ctx Request) :
    askedOf (m ++ [t]) = askedOf m ++ t.asks.toList := by
  unfold askedOf
  rw [List.filterMap_append, List.filterMap_cons]
  cases t.asks with
  | none | some q => rfl

theorem askedOf_free {m : TxnMgr Ctx Request} {t : Txn Ctx Request} {i : ℕ} (h : m[i]? = some t) :
    (t.asks.toList ++ askedOf (m.free i)).Perm (askedOf m) := by
  rw [← askedOf_cons]
  exact (TxnMgr.free_perm h).filterMap _

theorem askedOf_set {m : TxnMgr Ctx Request} {t u : Txn Ctx Request} {i : ℕ} (h : m[i]? = some t) :
    (t.asks.toList ++ askedOf (m.set i u)).Perm (u.asks.toList ++ askedOf m) := by
  obtain ⟨hi, rfl⟩ := List.getElem?_eq_some_iff.mp h
  have h1 : (askedOf (m.set i u)).Perm (u.asks.toList ++ askedOf (m.eraseIdx i)) := by
    rw [← askedOf_cons]
    exact (List.set_perm_cons_eraseIdx hi u).filterMap _
  have h2 : (m[i].asks.toList ++ askedOf (m.eraseIdx i)).Perm (askedOf m) := by
    rw [← askedOf_cons]
    exact (List.getElem_cons_eraseIdx_perm hi).filterMap _
  refine (h1.append_left _).trans ?_
  refine List.perm_append_comm_assoc _ _ _ |>.trans ?_
  exact h2.append_left _

namespace Agent

variable {sort : PairSort} {e : Env} {s t u : Agent} {i : ℕ}

/-- The requests that wait for a STUN server's answer, by host and server. -/
def asked (s : Agent) : List (ℕ × ℕ) := askedOf s.txnMgr

/-- The STUN servers' part is left alone. -/
structure Unasked (s t : Agent) : Prop where
  answers : (t.srflxMapped, t.srflxReceived, t.srflxExpected) = (s.srflxMapped, s.srflxReceived, s.srflxExpected)
  queries : (t.stunDnsPending, t.stunDnsQueries) = (s.stunDnsPending, s.stunDnsQueries)
  asked : t.asked.Perm s.asked
  begun : s.state ≠ .new → t.state ≠ .new

theorem Unasked.refl (s : Agent) : Unasked s s := ⟨rfl, rfl, .refl _, id⟩

theorem Unasked.trans (h₁ : Unasked s t) (h₂ : Unasked t u) : Unasked s u :=
  ⟨h₂.answers.trans h₁.answers, h₂.queries.trans h₁.queries, h₂.asked.trans h₁.asked, fun h => h₂.begun (h₁.begun h)⟩

theorem Unasked.of_eq (h : (t.srflxMapped, t.srflxReceived, t.srflxExpected, t.stunDnsPending, t.stunDnsQueries) =
      (s.srflxMapped, s.srflxReceived, s.srflxExpected, s.stunDnsPending, s.stunDnsQueries))
    (h' : (t.txnMgr, t.state) = (s.txnMgr, s.state)) : Unasked s t := by
  simp only [Prod.mk.injEq] at h h'
  obtain ⟨h1, h2, h3, h4, h5⟩ := h
  obtain ⟨h6, h7⟩ := h'
  refine ⟨by rw [h1, h2, h3], by rw [h4, h5], ?_, fun hs => by rwa [h7]⟩
  rw [Agent.asked, Agent.asked, h6]

theorem Unasked.foldl {α : Type} (f : Agent → α → Agent) (hf : ∀ s a, Unasked s (f s a)) :
    ∀ (l : List α) (s : Agent), Unasked s (l.foldl f s)
  | [], s => .refl s
  | a :: l, s => (hf s a).trans (Unasked.foldl f hf l (f s a))

theorem Unasked.table {mgr : TxnMgr Ctx Request} (h : (askedOf mgr).Perm s.asked) :
    Unasked s { s with txnMgr := mgr } := ⟨rfl, rfl, h, id⟩

/-! ### Small changes -/

namespace Unasked

theorem emit (ev : Event) (s : Agent) : Unasked s (s.emit ev) := .of_eq rfl rfl

theorem setState {st : AgentState} (hst : st ≠ .new) (s : Agent) : Unasked s (s.setState st) :=
  ⟨rfl, rfl, .refl _, fun _ => hst⟩

theorem setPair (i : ℕ) (st : PairState) (s : Agent) : Unasked s (s.setPair i st) := .of_eq rfl rfl

theorem arm (k : Timer) (s : Agent) : Unasked s (s.arm k) := .of_eq rfl rfl

theorem nominate (i : ℕ) (o : Nominator) (s : Agent) : Unasked s (s.nominate i o) := .of_eq rfl rfl

theorem addPairs (ok : CandidateType → Bool) (r : ℕ) (s : Agent) : Unasked s (s.addPairs ok r) := .of_eq rfl rfl

theorem cancelCheckTimeout (s : Agent) : Unasked s s.cancelCheckTimeout := .of_eq rfl rfl

theorem cancelAggressive (s : Agent) : Unasked s s.cancelAggressive := .of_eq rfl rfl

theorem armAggressive (cb : Aggressive) (s : Agent) : Unasked s (s.armAggressive cb) := .of_eq rfl rfl

theorem extendCheckTimeout (s : Agent) : Unasked s s.extendCheckTimeout := by
  have h1 : Unasked (s.cancelCheckTimeout.arm .checkTimeout) s.extendCheckTimeout := .of_eq rfl rfl
  exact ((cancelCheckTimeout s).trans (arm .checkTimeout _)).trans h1

theorem scheduleNextCheck (s : Agent) : Unasked s s.scheduleNextCheck := by
  unfold Agent.scheduleNextCheck
  split_ifs
  · exact .refl s
  · exact arm .check s

/-! ### Checks -/

theorem sendCheck (e : Env) (i : ℕ) (s : Agent) : Unasked s (s.sendCheck e i) := by
  unfold Agent.sendCheck
  cases s.pairs[i]? with
  | none => exact .refl s
  | some p =>
    dsimp only
    generalize hm : (if s.viaTurn p && !s.turnSends e then none
      else s.txnMgr.sendRaw (s.checkTxn e i p) (s.canSend e (s.checkTxn e i p).sock)) = mgr
    refine ⟨rfl, rfl, ?_, id⟩
    show (askedOf (mgr.getD s.txnMgr)).Perm (askedOf s.txnMgr)
    cases mgr with
    | none => exact .refl _
    | some m =>
      split_ifs at hm
      rw [Option.getD_some, TxnMgr.sendRaw_eq_some hm, askedOf_concat]
      exact .of_eq (List.append_nil _)

theorem sendChecks (e : Env) (pick : Agent → Pair → Bool) :
    ∀ (is : List ℕ) (s : Agent), Unasked s (s.sendChecks e pick is)
  | [], s => .refl s
  | i :: is, s => by
    unfold Agent.sendChecks
    cases s.pairs[i]? with
    | none => exact sendChecks e pick is s
    | some p =>
      dsimp only
      split_ifs
      · exact (sendCheck e i s).trans (sendChecks e pick is _)
      · exact sendChecks e pick is s

theorem sprayLoop (e : Env) : ∀ (ts : List (Addr × ℕ)) (k : ℕ) (s : Agent), Unasked s (s.sprayLoop e k ts)
  | [], _, s => .refl s
  | (ip, n) :: ts, k, s => by
    have h1 : Unasked s (s.sprayOne (e.port k) n ip) := .of_eq rfl rfl
    unfold Agent.sprayLoop
    split_ifs
    · exact .refl s
    · exact h1.trans (sprayLoop e ts (k + 1) _)

theorem startAggressiveSpray (e : Env) (s : Agent) : Unasked s (s.startAggressiveSpray e) := by
  have hset : ∀ (s : Agent) b n, Unasked s { s with aggressiveMode := b, sprayIndex := n } :=
    fun _ _ _ => .of_eq rfl rfl
  unfold Agent.startAggressiveSpray
  by_cases hm : s.aggressiveMode = true
  · rw [if_pos hm]
    exact .refl s
  rw [if_neg hm]
  have h1 : Unasked s { s with aggressiveMode := true }.extendCheckTimeout :=
    (hset s true s.sprayIndex).trans (extendCheckTimeout _)
  dsimp only
  refine h1.trans ?_
  generalize Agent.extendCheckTimeout { s with aggressiveMode := true } = s'
  by_cases hips : s'.srflxIps = []
  · rw [if_pos hips]
    exact hset s' false s'.sprayIndex
  rw [if_neg hips]
  refine (sprayLoop e (sprayTargets s'.srflxIps) 0 s').trans ?_
  generalize s'.sprayLoop e 0 (sprayTargets s'.srflxIps) = t
  refine (emit (.sprayed (t.pairs.length - s'.pairs.length)) t).trans ?_
  split_ifs
  · exact .of_eq rfl rfl
  · exact .of_eq rfl rfl

theorem tryNominate (e : Env) (s : Agent) : Unasked s (s.tryNominate e) := by
  unfold Agent.tryNominate
  split_ifs
  · exact .refl s
  · exact .refl s
  · exact .refl s
  · cases s.best.or s.bestPrflx with
    | none => exact .refl s
    | some i =>
      have h1 := (nominate i .tryNominate s).trans (setState (show AgentState.connected ≠ .new by decide) _)
      exact (h1.trans (arm .consent _)).trans ((cancelCheckTimeout _).trans (cancelAggressive _))
  · exact startAggressiveSpray e s
  · exact setState (by decide) s
  · exact .refl s

theorem onCheckResponse (e : Env) (msg : Option StunMsg) (i : ℕ) (s : Agent) :
    Unasked s (s.onCheckResponse e msg i) := by
  unfold Agent.onCheckResponse
  refine (emit (.result i (checkResult msg) (s.nominated = some i)) s).trans ?_
  cases checkResult msg with
  | success => exact (setPair i .succeeded _).trans (tryNominate e _)
  | failure => exact (setPair i .failed _).trans (tryNominate e _)
  | conflict =>
    have h2 : ∀ s : Agent, Unasked s s.switchRole := fun _ => .of_eq rfl rfl
    exact ((h2 _).trans (setPair i .waiting _)).trans (sendCheck e i _)

theorem restart (sort : PairSort) (s : Agent) : Unasked s (s.restart sort) := by
  have h1 : Unasked s (s.generatePairs sort) := .of_eq rfl rfl
  unfold Agent.restart
  refine h1.trans ?_
  unfold Agent.startChecks
  split_ifs
  · exact setState (by decide) _
  · have h2 : ∀ s : Agent, Unasked s { s with checkIndex := 0 } := fun _ => .of_eq rfl rfl
    have h3 : ∀ s : Agent, Unasked s { s.arm .checkTimeout with checkTimeout := true } := fun _ => .of_eq rfl rfl
    exact (setState (by decide) _).trans ((h2 _).trans ((scheduleNextCheck _).trans (h3 _)))

/-! ### Timers of the checks -/

theorem checkPacingCb (e : Env) (s : Agent) : Unasked s (s.checkPacingCb e) := by
  have hindex : ∀ n, Unasked s { s with checkIndex := n } := fun _ => .of_eq rfl rfl
  unfold Agent.checkPacingCb
  split_ifs
  · exact .refl s
  · cases s.nextToCheck with
    | none => exact (hindex _).trans (tryNominate e _)
    | some i => exact (hindex (i + 1)).trans ((sendCheck e i _).trans (scheduleNextCheck _))

theorem symmetricKeepaliveCb (e : Env) (s : Agent) : Unasked s (s.symmetricKeepaliveCb e) := by
  have h1 : Unasked s { s with aggressiveTimer := none } := .of_eq rfl rfl
  unfold Agent.symmetricKeepaliveCb
  refine h1.trans ?_
  dsimp only
  split_ifs
  · exact .refl _
  · exact .refl _
  · exact (sendChecks e _ _ _).trans (armAggressive .keepalive _)

theorem checkTimeoutCb (e : Env) (s : Agent) : Unasked s (s.checkTimeoutCb e) := by
  have h1 : Unasked s { s with checkTimeout := false } := .of_eq rfl rfl
  have h2 : ∀ s : Agent, Unasked s { s with aggressiveMode := true } := fun _ => .of_eq rfl rfl
  unfold Agent.checkTimeoutCb
  refine h1.trans ?_
  by_cases hst : s.state ≠ .checking
  · rw [if_pos hst]
    exact .refl _
  rw [if_neg hst]
  by_cases hn : s.nominated.isSome = true
  · rw [if_pos hn]
    exact .refl _
  rw [if_neg hn]
  split
  · exact (nominate _ .checkTimeout _).trans (setState (by decide) _)
  · unfold Agent.startSymmetricKeepalive
    split_ifs
    · exact startAggressiveSpray e _
    · exact .refl _
    · exact (h2 _).trans ((extendCheckTimeout _).trans (symmetricKeepaliveCb e _))
    · exact (cancelAggressive _).trans (setState (by decide) _)

theorem sprayBatch (e : Env) : ∀ (n sent : ℕ) (s : Agent), Unasked s (s.sprayBatch e n sent)
  | 0, _, s => .refl s
  | n + 1, sent, s => by
    have h1 : Unasked s { s with sprayIndex := s.sprayIndex + 1 } := .of_eq rfl rfl
    unfold Agent.sprayBatch
    dsimp only
    split_ifs
    · exact .refl s
    · exact h1.trans ((sendCheck e s.sprayIndex _).trans (sprayBatch e n (sent + 1) _))
    · exact h1.trans (sprayBatch e n sent _)

theorem aggressivePacingCb (e : Env) (s : Agent) : Unasked s (s.aggressivePacingCb e) := by
  have h1 : Unasked s { s with aggressiveTimer := none } := .of_eq rfl rfl
  unfold Agent.aggressivePacingCb
  refine h1.trans ?_
  dsimp only
  split_ifs
  · exact .refl _
  · exact .refl _
  · exact (sprayBatch e _ 0 _).trans (armAggressive .spray _)
  · exact sprayBatch e _ 0 _

theorem consentCb (e : Env) (s : Agent) : Unasked s (s.consentCb e) := by
  unfold Agent.consentCb
  by_cases hst : s.state ≠ .connected ∧ s.state ≠ .completed
  · rw [if_pos hst]
    exact .refl s
  rw [if_neg hst]
  cases s.nominated.bind (s.pairs[·]?) with
  | none => exact .refl s
  | some p => exact .of_eq rfl rfl

/-! ### Requests of the peer -/

theorem addPrflx (src : Addr) (s : Agent) : Unasked s (s.addPrflx src) := by
  unfold Agent.addPrflx
  dsimp only
  split_ifs
  · exact .refl s
  · exact .refl s
  · exact .of_eq rfl rfl
  · exact .of_eq rfl rfl

theorem triggerCheck (e : Env) (sock : Sock) (src : Addr) (s : Agent) : Unasked s (s.triggerCheck e sock src) := by
  unfold Agent.triggerCheck
  split_ifs
  · exact .refl s
  · cases s.triggered sock src with
    | none => exact .refl s
    | some i =>
      dsimp only
      split_ifs
      · exact sendCheck e i s
      · exact .refl s

theorem nominateByPeer (src : Addr) (s : Agent) : Unasked s (s.nominateByPeer src) := by
  unfold Agent.nominateByPeer
  split
  · exact .refl s
  · exact ((nominate _ .peer s).trans (setPair _ .succeeded _)).trans ((setState (by decide) _).trans (arm .consent _))

theorem handleRequest (e : Env) (sock : Sock) (src : Addr) (txnId : Bytes) (use : Bool) (s : Agent) :
    Unasked s (s.handleRequest e sock src txnId use) := by
  unfold Agent.handleRequest
  refine (emit (if e.sendOk s.log.length then .response sock src txnId else .unsent) s).trans ?_
  generalize s.emit (if e.sendOk s.log.length then .response sock src txnId else .unsent) = s
  have h1 : Unasked s (if use then s.emit (.useCandidate sock src) else s) := by
    split_ifs
    · exact emit _ s
    · exact .refl s
  dsimp only
  refine h1.trans ?_
  generalize (if use then s.emit (.useCandidate sock src) else s) = s
  refine ((addPrflx src s).trans (triggerCheck e sock src _)).trans ?_
  generalize (s.addPrflx src).triggerCheck e sock src = s
  split_ifs
  · exact nominateByPeer src _
  · exact .refl _

/-! ### The end of gathering -/

theorem endGathering (sort : PairSort) (timeout : Bool) (s : Agent) : Unasked s (s.endGathering sort timeout) := by
  have h1 : Unasked s ({ s with gatheringDone := true }.emit (.endOfCandidates timeout s.operations)) := .of_eq rfl rfl
  unfold Agent.endGathering
  dsimp only
  split_ifs
  · exact h1.trans (restart sort _)
  · exact h1

theorem gatherCheckDone (sort : PairSort) (s : Agent) : Unasked s (s.gatherCheckDone sort) := by
  have h1 : Unasked s { s.cancel .gather s.gatherTimer with gatherTimer := false } := .of_eq rfl rfl
  unfold Agent.gatherCheckDone
  split_ifs
  · exact .refl s
  · exact .refl s
  · exact .refl s
  · exact h1.trans (endGathering sort false _)

theorem gatherDone (sort : PairSort) (s : Agent) : Unasked s (s.gatherDone sort) := by
  have h1 : Unasked s { s with pendingGather := s.pendingGather - 1 } := .of_eq rfl rfl
  exact h1.trans (gatherCheckDone sort _)

theorem gatherTimeoutCb (sort : PairSort) (s : Agent) : Unasked s (s.gatherTimeoutCb sort) := by
  have h1 : Unasked s { s with gatherTimer := false } := .of_eq rfl rfl
  unfold Agent.gatherTimeoutCb
  refine h1.trans ?_
  dsimp only
  split_ifs
  · exact .refl _
  · exact endGathering sort true _

/-! ### Candidates -/

theorem addLocal (c : Candidate) (s : Agent) : Unasked s (s.addLocal c) := by
  unfold Agent.addLocal
  split_ifs
  · exact .of_eq rfl rfl
  · exact .of_eq rfl rfl

theorem createSrflxCandidate (hi : ℕ) (mapped : Addr) (pref : ℕ) (s : Agent) :
    Unasked s (s.createSrflxCandidate hi mapped pref) := by
  unfold Agent.createSrflxCandidate
  split_ifs
  · exact .refl s
  · exact addLocal _ s

theorem predictLoop (hi : ℕ) (mapped : Addr) (delta : ℕ) :
    ∀ (n k : ℕ) (s : Agent), Unasked s (s.predictLoop hi mapped delta n k)
  | 0, _, s => .refl s
  | n + 1, k, s => by
    unfold Agent.predictLoop
    dsimp only
    split_ifs
    · exact .refl s
    · exact .refl s
    · exact (createSrflxCandidate hi _ _ s).trans (predictLoop hi mapped delta n (k + 1) _)

theorem finalizeSrflxForHost (e : Env) (hi : ℕ) (s : Agent) : Unasked s (s.finalizeSrflxForHost e hi) := by
  have h1 := (emit (.gathered s.gatheringDone) s).trans (createSrflxCandidate hi
    ((((List.range (s.srflxExpected hi)).filter (fun si => (s.srflxMapped hi si).isSome)).getLast?.bind
      (s.srflxMapped hi)).getD e.stray) (65535 - hi) _)
  unfold Agent.finalizeSrflxForHost
  dsimp only
  refine h1.trans ?_
  split
  · split_ifs
    · exact .refl _
    · exact .refl _
    · exact .of_eq rfl rfl
    all_goals exact predictLoop _ _ _ _ _ _
  · exact .refl _

theorem addTurnCandidate (type : CandidateType) (pref : ℕ) (addr : Addr) (s : Agent) :
    Unasked s (s.addTurnCandidate type pref addr) := by
  unfold Agent.addTurnCandidate
  split_ifs
  · exact .refl s
  · exact addLocal _ s
  · exact addLocal _ s

/-! ### The TURN server -/

theorem turnClient (tc : Option TurnClient) (s : Agent) : Unasked s { s with turnClient := tc } := .of_eq rfl rfl

theorem turnSend (e : Env) (ctx : TurnCtx) (msg : Request) (s : Agent) : Unasked s (s.turnSend e ctx msg) := by
  unfold Agent.turnSend
  cases s.turnClient with
  | none => exact .refl s
  | some tc => exact .of_eq rfl rfl

theorem createPermission (e : Env) (peer : Addr) (s : Agent) : Unasked s (s.createPermission e peer) := by
  unfold Agent.createPermission
  cases s.turnClient with
  | none => exact .refl s
  | some tc =>
    dsimp only
    by_cases hst : tc.state ≠ .allocated
    · rw [if_pos hst]
      exact .refl s
    rw [if_neg hst]
    by_cases hfull : 16 ≤ tc.permissionCount
    · rw [if_pos hfull]
      exact .refl s
    rw [if_neg hfull]
    exact (turnClient _ s).trans (turnSend e .permission .permission _)

theorem createPermissions (e : Env) (s : Agent) : Unasked s (s.createPermissions e) :=
  Unasked.foldl (fun (s : Agent) (c : Candidate) => s.createPermission e c.addr)
    (fun s c => createPermission e c.addr s) s.remoteCandidates s

theorem onTurnDnsDone (sort : PairSort) (e : Env) (port : ℕ) (result : Option Addr) (s : Agent) :
    Unasked s (s.onTurnDnsDone sort e port result) := by
  have h1 : Unasked s { s with turnDnsQuery := none } := .of_eq rfl rfl
  unfold Agent.onTurnDnsDone
  refine h1.trans ?_
  cases result with
  | none => exact gatherDone sort _
  | some a =>
    dsimp only
    unfold Agent.startTurnAllocate
    split_ifs
    · exact (turnClient _ _).trans (turnSend e .allocate .allocate _)
    · exact (emit .noMemory _).trans (gatherDone sort _)

theorem onTurnAllocated (sort : PairSort) (e : Env) (relayed : Addr) (mapped : Option Addr) (s : Agent) :
    Unasked s (s.onTurnAllocated sort e relayed mapped) := by
  have h1 : ∀ s, Unasked s (((Agent.addTurnCandidate .relay 65535 relayed s).gatherDone sort).createPermissions e) :=
    fun s => ((addTurnCandidate .relay 65535 relayed s).trans (gatherDone sort _)).trans (createPermissions e _)
  refine (emit (.gathered s.gatheringDone) s).trans ?_
  cases mapped with
  | none => exact h1 _
  | some a => exact (addTurnCandidate .srflx 65534 a _).trans (h1 _)

theorem onTurnFailed (sort : PairSort) (s : Agent) : Unasked s (s.onTurnFailed sort) :=
  (turnClient _ s).trans (gatherDone sort _)

theorem onAllocateResponse (sort : PairSort) (e : Env) (msg : Option StunMsg) (s : Agent) :
    Unasked s (s.onAllocateResponse sort e msg) := by
  unfold Agent.onAllocateResponse
  cases s.turnClient with
  | none => exact .refl s
  | some tc =>
    cases msg with
    | none => exact onTurnFailed sort s
    | some m =>
      dsimp only
      split_ifs
      · exact (turnClient _ s).trans (turnSend e .allocate .allocate _)
      · exact onTurnFailed sort s
      · exact (turnClient _ s).trans (onTurnFailed sort _)
      all_goals exact (turnClient _ s).trans (onTurnAllocated sort e _ _ _)

theorem turnComplete (sort : PairSort) (e : Env) (ctx : TurnCtx) (again : Bool) (msg : Option StunMsg) (s : Agent) :
    Unasked s (s.turnComplete sort e ctx again msg) := by
  unfold Agent.turnComplete
  refine (emit (.turnResult ctx again ((msg.map StunMsg.isError).getD true)) s).trans ?_
  generalize s.emit (.turnResult ctx again ((msg.map StunMsg.isError).getD true)) = s
  cases ctx with
  | allocate => exact onAllocateResponse sort e msg s
  | permission => exact .refl s
  | refresh =>
    dsimp only
    unfold Agent.onRefreshResponse
    cases s.turnClient with
    | none => exact .refl s
    | some tc =>
      cases msg with
      | none => exact onTurnFailed sort s
      | some m =>
        dsimp only
        split_ifs
        · exact onTurnFailed sort s
        · exact turnClient _ s

theorem refreshTimerCb (e : Env) (s : Agent) : Unasked s (s.refreshTimerCb e) := by
  unfold Agent.refreshTimerCb
  cases s.turnClient with
  | none => exact .refl s
  | some tc =>
    dsimp only
    split_ifs
    · exact turnClient _ s
    · exact (turnClient _ s).trans (turnSend e .refresh .refresh _)

theorem turnOnResponse {sort : PairSort} {e : Env} {msg : StunMsg} (h : s.turnOnResponse sort e msg = some t) :
    Unasked s t := by
  unfold Agent.turnOnResponse at h
  split at h
  · cases h
  · split at h
    · cases h
    · split at h
      · cases h
      · cases h
        exact (turnClient _ s).trans (turnComplete sort e _ _ _ _)

theorem onTurnRetransmit (sort : PairSort) (e : Env) (i : ℕ) (s : Agent) :
    Unasked s (s.onTurnRetransmit sort e i) := by
  unfold Agent.onTurnRetransmit
  split
  · exact .refl s
  · split
    · exact .refl s
    · exact (turnClient _ s).trans (turnComplete sort e _ _ _ _)
    · exact turnClient _ s

/-! ### The host's calls -/

theorem hostLoop : ∀ (n : ℕ) (is : List Iface) (s : Agent), Unasked s (s.hostLoop n is)
  | _, [], s => .refl s
  | n, i :: is, s => by
    unfold Agent.hostLoop
    by_cases hskip : (!i.up || i.loopback || i.addr.family = .unspec ||
        (i.addr.family = .inet6 && (!s.conf.enableIpv6 || i.linkLocal))) = true
    · rw [if_pos hskip]
      exact hostLoop n is s
    rw [if_neg hskip]
    by_cases hfull : maxCandidates ≤ s.localCandidates.length
    · rw [if_pos hfull]
      exact .refl s
    rw [if_neg hfull]
    cases i.sock with
    | none => exact hostLoop n is s
    | some sock => exact (addLocal _ s).trans (hostLoop (n + 1) is _)

theorem addRemotes : ∀ (cs : List Candidate) (s : Agent), Unasked s (s.addRemotes cs)
  | [], s => .refl s
  | c :: cs, s => by
    have h1 : Unasked s (s.addRemote c) := by
      unfold Agent.addRemote
      split_ifs
      · exact .refl s
      · exact .of_eq rfl rfl
    unfold Agent.addRemotes
    split_ifs
    · exact .refl s
    · exact h1.trans (addRemotes cs _)

theorem setRemoteDescription (sort : PairSort) (e : Env) (d : Description) (s : Agent) :
    Unasked s (s.setRemoteDescription sort e d) := by
  have h1 : Unasked s { s with remoteUfrag := d.iceUfrag, remotePwd := d.icePwd, remoteSet := true } := .of_eq rfl rfl
  have h2 := (h1.trans (addRemotes d.candidates _)).trans (createPermissions e _)
  unfold Agent.setRemoteDescription
  dsimp only
  split_ifs
  · exact h2.trans (restart sort _)
  · exact h2

theorem addRemoteCandidate (sort : PairSort) (e : Env) (c : Candidate) (s : Agent) :
    Unasked s (s.addRemoteCandidate sort e c) := by
  have h1 : Unasked s { s with remoteCandidates := s.remoteCandidates ++ [c] } := .of_eq rfl rfl
  have h2 : ∀ r (s : Agent), Unasked s (s.trickle e r) := by
    intro r s
    unfold Agent.trickle
    split_ifs
    · exact (addPairs _ r s).trans (sendChecks e _ _ _)
    · exact .refl s
  have h3 : ∀ s : Agent, Unasked s (s.restartFailed sort) := by
    intro s
    have h4 : Unasked s { s with nominated := none } := .of_eq rfl rfl
    unfold Agent.restartFailed
    split_ifs
    · exact h4.trans (restart sort _)
    · exact .refl s
  unfold Agent.addRemoteCandidate
  split_ifs
  · exact .refl s
  · exact .refl s
  · exact ((h1.trans (createPermission e c.addr _)).trans (h2 _ _)).trans (h3 _)

theorem onTimer (sort : PairSort) (e : Env) (k : Timer) (s : Agent) : Unasked s (s.onTimer sort e k) := by
  cases k with
  | check => exact checkPacingCb e s
  | gather => exact gatherTimeoutCb sort s
  | checkTimeout => exact checkTimeoutCb e s
  | consent => exact consentCb e s
  | aggressive cb =>
    cases cb with
    | spray => exact aggressivePacingCb e s
    | keepalive => exact symmetricKeepaliveCb e s

theorem resend (e : Env) (r : Txn Ctx Request) (s : Agent) : Unasked s (s.resend e r) := by
  unfold Agent.resend
  split
  · exact emit _ s
  · exact emit _ s

end Unasked

theorem onStunDnsDone_eq (sort : PairSort) (e : Env) (si port : ℕ) (result : Option Addr) (s : Agent) :
    ∃ servers, s.onStunDnsDone sort e si port result =
      { s with
        stunDnsQueries := s.stunDnsQueries.erase (si, port), stunDnsPending := s.stunDnsPending - 1
        stunAddrs := servers }.checkStunDnsDone sort e := by
  unfold Agent.onStunDnsDone Agent.addStunServer
  split
  · exact ⟨_, rfl⟩
  · split_ifs
    all_goals exact ⟨_, rfl⟩

end Agent

end Libx.Ice
