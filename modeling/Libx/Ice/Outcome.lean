import Libx.Core.Run
import Libx.Ice.Acts

/-!
# Libx.Ice.Outcome — what the acts do to pairs, nomination and log

One lemma for each function of the checks that has more than one outcome.
-/

namespace Libx.Ice

open Libx.Agent (Bytes)
open List

namespace Agent

variable {sort : PairSort} {e : Env} {s t u : Agent} {i : ℕ}

/-! ### Pairs that are added -/

/-- The frozen pairs `new` are added at the end. -/
structure Added (new : List Pair) (s t : Agent) : Prop where
  pairs : t.pairs = s.pairs ++ new
  frozen : ∀ p ∈ new, p.state = .frozen
  nominated : t.nominated = s.nominated
  state : t.state = s.state
  txnMgr : t.txnMgr = s.txnMgr
  locals : t.localCandidates = s.localCandidates
  remotes : s.remoteCandidates <+: t.remoteCandidates
  consent : .consent ∈ s.timers → .consent ∈ t.timers
  log : t.log = s.log
  aside : Aside s t

theorem Added.trans {new new' : List Pair} (h₁ : Added new s t) (h₂ : Added new' t u) :
    Added (new ++ new') s u := by
  refine ⟨?_, ?_, h₂.nominated.trans h₁.nominated, h₂.state.trans h₁.state, h₂.txnMgr.trans h₁.txnMgr,
    h₂.locals.trans h₁.locals, h₁.remotes.trans h₂.remotes, fun h => h₂.consent (h₁.consent h),
    h₂.log.trans h₁.log, h₁.aside.trans h₂.aside⟩
  · rw [h₂.pairs, h₁.pairs, append_assoc]
  · intro p hp
    rcases mem_append.mp hp with h | h
    · exact h₁.frozen p h
    · exact h₂.frozen p h

theorem Added.nil (h : (t.pairs, t.nominated, t.state, t.txnMgr) = (s.pairs, s.nominated, s.state, s.txnMgr))
    (h' : (t.localCandidates, t.log) = (s.localCandidates, s.log))
    (hr : s.remoteCandidates <+: t.remoteCandidates) (hc : .consent ∈ s.timers → .consent ∈ t.timers)
    (ha : Aside s t) : Added [] s t := by
  simp only [Prod.mk.injEq] at h h'
  obtain ⟨h1, h2, h3, h4⟩ := h
  exact ⟨by rw [h1, List.append_nil], by simp, h2, h3, h4, h'.1, hr, hc, h'.2, ha⟩

theorem addPairs_added (ok : CandidateType → Bool) (r : ℕ) (s : Agent) :
    ∃ new, Added new s (s.addPairs ok r) := by
  refine ⟨_, rfl, ?_, rfl, rfl, rfl, rfl, prefix_refl _, id, rfl, Apart.of_eq rfl rfl rfl⟩
  intro p hp
  obtain ⟨l, -, rfl⟩ := mem_map.mp (mem_of_mem_take hp)
  rfl

theorem sprayOne_added (port n : ℕ) (ip : Addr) (s : Agent) : ∃ new, Added new s (s.sprayOne port n ip) := by
  let s' : Agent :=
    { s with remoteCandidates := s.remoteCandidates ++
        [{ type := .srflx, priority := candidatePriority .srflx (200 + n)
           addr := ip.setPort (1024 + port % 64512) }] }
  have h1 : Added [] s s' := Added.nil rfl rfl (prefix_append _ _) id (Apart.of_eq rfl rfl rfl)
  obtain ⟨new, h2⟩ := addPairs_added (fun k => k = .host || k = .srflx) (s'.remoteCandidates.length - 1) s'
  exact ⟨[] ++ new, h1.trans h2⟩

theorem sprayLoop_added : ∀ (ts : List (Addr × ℕ)) (k : ℕ) (s : Agent), ∃ new, Added new s (s.sprayLoop e k ts)
  | [], _, s => ⟨[], Added.nil rfl rfl (prefix_refl _) id (Apart.of_eq rfl rfl rfl)⟩
  | (ip, n) :: ts, k, s => by
    unfold Agent.sprayLoop
    split_ifs
    · exact ⟨[], Added.nil rfl rfl (prefix_refl _) id (Apart.of_eq rfl rfl rfl)⟩
    · obtain ⟨new, h1⟩ := sprayOne_added (e.port k) n ip s
      obtain ⟨new', h2⟩ := sprayLoop_added ts (k + 1) (s.sprayOne (e.port k) n ip)
      exact ⟨new ++ new', h1.trans h2⟩

theorem extendCheckTimeout_added (s : Agent) : Added [] s s.extendCheckTimeout := by
  have hc := (Still.extendCheckTimeout s).frame.consent
  have ha := (Still.extendCheckTimeout s).aside
  unfold Agent.extendCheckTimeout Agent.cancelCheckTimeout Agent.cancel Agent.arm at hc ha ⊢
  exact Added.nil rfl rfl (prefix_refl _) hc ha

theorem startAggressiveSpray_cases (e : Env) (s : Agent) :
    (Added [] s (s.startAggressiveSpray e) ∧ (s.aggressiveMode = true ∨ s.srflxIps = [])) ∨
      ∃ new t, Added new s t ∧ Still (t.emit (.sprayed new.length)) (s.startAggressiveSpray e) := by
  unfold Agent.startAggressiveSpray
  by_cases hm : s.aggressiveMode = true
  · rw [if_pos hm]
    exact .inl ⟨Added.nil rfl rfl (prefix_refl _) id (Apart.of_eq rfl rfl rfl), .inl hm⟩
  rw [if_neg hm]
  have h0 : Added [] s { s with aggressiveMode := true } := Added.nil rfl rfl (prefix_refl _) id (Apart.of_eq rfl rfl rfl)
  have h1 := h0.trans (extendCheckTimeout_added _)
  have hips : (extendCheckTimeout { s with aggressiveMode := true }).srflxIps = s.srflxIps := by
    rfl
  dsimp only
  generalize extendCheckTimeout { s with aggressiveMode := true } = s' at h1 hips ⊢
  rw [hips]
  by_cases hnil : s.srflxIps = []
  · rw [if_pos hnil]
    exact .inl ⟨h1.trans (Added.nil rfl rfl (prefix_refl _) id (Apart.of_eq rfl rfl rfl)), .inr hnil⟩
  · rw [if_neg hnil]
    obtain ⟨new, h2⟩ := sprayLoop_added (sprayTargets s.srflxIps) 0 s' (e := e)
    have h3 : Added new s (s'.sprayLoop e 0 (sprayTargets s.srflxIps)) := h1.trans h2
    generalize s'.sprayLoop e 0 (sprayTargets s.srflxIps) = t at h3 ⊢
    have hcount : t.pairs.length - s'.pairs.length = new.length := by
      rw [h3.pairs, h1.pairs]
      simp
    rw [hcount]
    refine .inr ⟨new, t, h3, ?_⟩
    split_ifs
    · exact Still.of_eq rfl rfl rfl rfl
    · have h4 : Still (t.emit (.sprayed new.length))
          { t.emit (.sprayed new.length) with sprayIndex := s'.pairs.length } :=
        Still.of_eq rfl rfl rfl rfl
      exact h4.trans (Still.armAggressive .spray _)

theorem srflxIps_ne_nil (h : s.hasRemoteSrflx = true) : s.srflxIps ≠ [] := by
  have hfold : ∀ (cs : List Candidate) (ips : List Addr), ips ≠ [] →
      cs.foldl (fun ips c => if ips.any (sockaddrIpEqual c.addr) then ips else ips ++ [c.addr]) ips ≠ [] := by
    intro cs
    induction cs with
    | nil => exact fun ips h => h
    | cons c cs ih =>
      intro ips h
      refine ih _ ?_
      dsimp only
      split_ifs
      · exact h
      · simp
  unfold Agent.hasRemoteSrflx at h
  unfold Agent.srflxIps
  cases hcs : s.remoteCandidates.filter (fun c => c.type = .srflx) with
  | nil =>
    rw [any_eq_true] at h
    obtain ⟨c, hc, ht⟩ := h
    have : c ∈ s.remoteCandidates.filter (fun c => c.type = .srflx) := mem_filter.mpr ⟨hc, ht⟩
    rw [hcs] at this
    exact absurd this not_mem_nil
  | cons c cs =>
    intro hnil
    rcases take_eq_nil_iff.mp hnil with h | h
    · exact absurd h (by decide)
    · exact hfold cs [c.addr] (by simp) h

/-! ### Restarts -/

theorem allPairs_frozen (s : Agent) : ∀ p ∈ s.allPairs, p.state = .frozen := by
  intro p hp
  obtain ⟨l, -, h⟩ := mem_flatMap.mp (mem_of_mem_take hp)
  obtain ⟨r, -, rfl⟩ := mem_map.mp h
  rfl

theorem restart_spec (sort : PairSort) (s : Agent) :
    (s.restart sort).pairs = sort.sort s.allPairs ∧ (s.restart sort).checks = s.checks ∧
      (s.restart sort).nominated = s.nominated ∧
      (s.restart sort).state = if sort.sort s.allPairs = [] then .failed else .checking := by
  unfold Agent.restart Agent.startChecks
  by_cases h : sort.sort s.allPairs = []
  · have h' : (s.generatePairs sort).pairs = [] := h
    rw [if_pos h, if_pos h']
    exact ⟨rfl, rfl, rfl, rfl⟩
  · have h' : (s.generatePairs sort).pairs ≠ [] := h
    rw [if_neg h, if_neg h']
    exact ⟨rfl, rfl, rfl, rfl⟩

/-! ### A check that is sent -/

def checkOf (e : Env) (i : ℕ) (p : Pair) (s : Agent) : Check :=
  ⟨i, p.ends, e.txnId s.log.length, (s.localOf p).sock, (s.remoteOf p).addr⟩

theorem sendCheck_table {p : Pair} (hp : s.pairs[i]? = some p) (e : Env) :
    ∃ registered, .check i p.state registered ∈ (s.sendCheck e i).log ∧
      (s.sendCheck e i).txnMgr = s.txnMgr ++ if registered then [s.checkTxn e i p] else [] := by
  unfold Agent.sendCheck
  rw [hp]
  dsimp only
  generalize hm : (if s.viaTurn p && !s.turnSends e then none
    else s.txnMgr.sendRaw (s.checkTxn e i p) (s.canSend e (s.checkTxn e i p).sock)) = mgr
  refine ⟨mgr.isSome, mem_cons_self, ?_⟩
  cases mgr with
  | none => exact (List.append_nil _).symm
  | some m =>
    split_ifs at hm
    exact TxnMgr.sendRaw_eq_some hm

theorem sendCheck_checks {p : Pair} (hp : s.pairs[i]? = some p) (e : Env) :
    ∃ registered, .check i p.state registered ∈ (s.sendCheck e i).log ∧
      (s.sendCheck e i).checks = s.checks ++ if registered then [s.checkOf e i p] else [] := by
  obtain ⟨registered, hl, ht⟩ := sendCheck_table hp e
  refine ⟨registered, hl, ?_⟩
  unfold Agent.checks
  rw [ht]
  cases registered with
  | false =>
    show checksOf (s.txnMgr ++ []) = checksOf s.txnMgr ++ []
    rw [List.append_nil, List.append_nil]
  | true => exact checksOf_concat _ _

/-! ### Nomination -/

theorem tryNominate_cases (e : Env) (s : Agent) :
    (s.tryNominate e = s ∧
      (s.state = .checking → s.nominated = none → s.anyInProgress = true ∨ s.anySucceeded = true)) ∨
    s.state = .checking ∧ s.nominated = none ∧
      ((∃ i p, s.pairs[i]? = some p ∧ p.state = .succeeded ∧
          Still ((s.nominate i .tryNominate).setState .connected).startConsent (s.tryNominate e)) ∨
        s.anyInProgress = false ∧ s.anySucceeded = false ∧
          (s.hasRemoteSrflx = true ∧ s.aggressiveMode = false ∧
            s.tryNominate e = s.startAggressiveSpray e ∨ s.tryNominate e = s.setState .failed)) := by
  unfold Agent.tryNominate
  by_cases hs : s.state = .checking
  swap
  · exact .inl ⟨if_pos hs, fun h => absurd h hs⟩
  rw [if_neg (not_not.mpr hs)]
  by_cases hn : s.nominated = none
  swap
  · exact .inl ⟨if_pos (Option.isSome_iff_ne_none.mpr hn), fun _ h => absurd h hn⟩
  rw [if_neg (by simp [hn])]
  by_cases hsucc : s.anySucceeded && s.pairs.length ≤ s.checkIndex
  · have hany : s.anySucceeded = true := (Bool.and_eq_true_iff.mp hsucc).1
    rw [if_pos hsucc]
    split_ifs with h1
    · exact .inl ⟨rfl, fun _ _ => .inr hany⟩
    cases hb : s.best.or s.bestPrflx with
    | none => exact .inl ⟨rfl, fun _ _ => .inr hany⟩
    | some i =>
      obtain ⟨p, hp, hst⟩ := Acts.succeeded_of_best hb
      exact .inr ⟨hs, hn, .inl ⟨i, p, hp, hst,
        (Still.cancelCheckTimeout _).trans (Still.cancelAggressive _)⟩⟩
  · rw [if_neg hsucc]
    by_cases hnone : (!s.anyInProgress && !s.anySucceeded) = true
    swap
    · refine .inl ⟨if_neg hnone, fun _ _ => ?_⟩
      rw [Bool.and_eq_true, Bool.not_eq_true', Bool.not_eq_true', not_and_or] at hnone
      simpa using hnone
    rw [if_pos hnone]
    rw [Bool.and_eq_true, Bool.not_eq_true', Bool.not_eq_true'] at hnone
    refine .inr ⟨hs, hn, .inr ⟨hnone.1, hnone.2, ?_⟩⟩
    split_ifs with h2
    · rw [Bool.and_eq_true, Bool.and_eq_true, Bool.not_eq_true', Bool.not_eq_true'] at h2
      exact .inl ⟨h2.2, h2.1.2, rfl⟩
    · exact .inr rfl

theorem checking_of_tryNominate (h : (s.tryNominate e).state = .checking) : s.state = .checking := by
  rcases tryNominate_cases e s with ⟨h1, -⟩ | ⟨hs, -⟩
  · rw [h1] at h
    exact h
  · exact hs

theorem checking_of_onCheckResponse {msg : Option StunMsg} (h : (s.onCheckResponse e msg i).state = .checking) :
    s.state = .checking := by
  unfold Agent.onCheckResponse at h
  cases hr : checkResult msg with
  | success =>
    rw [hr] at h
    exact checking_of_tryNominate (s := (s.emit _).setPair i .succeeded) h
  | failure =>
    rw [hr] at h
    exact checking_of_tryNominate (s := (s.emit _).setPair i .failed) h
  | conflict =>
    rw [hr] at h
    exact (sendCheck_state e i ((s.emit _).switchRole.setPair i .waiting)).symm.trans h

theorem consentCb_cases (e : Env) (s : Agent) :
    (s.consentCb e = s ∧ (s.state = .connected → s.nominated.bind (s.pairs[·]?) = none)) ∨
      ∃ ev, s.consentCb e = (s.emit ev).arm .consent ∧
        (ev = .unsent ∨ (∃ dest id, ev = .relayed dest id false) ∨ ∃ sock dest id, ev = .request sock dest id false) := by
  unfold Agent.consentCb
  by_cases hs : s.state ≠ .connected ∧ s.state ≠ .completed
  · rw [if_pos hs]
    exact .inl ⟨rfl, fun h => absurd h hs.1⟩
  rw [if_neg hs]
  cases hp : s.nominated.bind (s.pairs[·]?) with
  | none => exact .inl ⟨rfl, fun _ => rfl⟩
  | some p =>
    refine .inr ⟨_, rfl, ?_⟩
    by_cases hv : s.viaTurn p = true
    · rw [if_pos hv]
      split_ifs
      · exact .inr (.inl ⟨_, _, rfl⟩)
      · exact .inl rfl
    · rw [if_neg hv]
      cases (s.checkTxn e 0 p).sock with
      | none => exact .inl rfl
      | some sock =>
        split_ifs
        · exact .inr (.inr ⟨sock, _, _, rfl⟩)
        · exact .inl rfl

/-! ### The log grows -/

theorem Frame.log_suffix (h : Frame s t) : s.log <:+ t.log := by
  obtain ⟨evs, hl, -⟩ := h.log
  exact ⟨evs, hl.symm⟩

theorem setState_log (st : AgentState) (s : Agent) : s.log <:+ (s.setState st).log := by
  unfold Agent.setState
  split_ifs
  · exact suffix_refl _
  · exact suffix_cons _ _

theorem nominate_log (i : ℕ) (o : Nominator) (s : Agent) : s.log <:+ (s.nominate i o).log :=
  suffix_cons _ _

theorem sendCheck_log (e : Env) (i : ℕ) (s : Agent) : s.log <:+ (s.sendCheck e i).log := by
  unfold Agent.sendCheck
  split
  · exact suffix_refl _
  · exact (suffix_append _ _).trans (suffix_cons _ _)

theorem sendCheck_events (e : Env) (i : ℕ) (s : Agent) :
    ∃ evs, (s.sendCheck e i).log = evs ++ s.log ∧
      ∀ ev ∈ evs, (∃ was registered, ev = .check i was registered) ∨
        (∃ sock dest id use, ev = .request sock dest id use) ∨ ∃ dest id use, ev = .relayed dest id use := by
  unfold Agent.sendCheck
  cases s.pairs[i]? with
  | none => exact ⟨[], rfl, by simp⟩
  | some p =>
    refine ⟨_ :: s.checkSent e p _ _, rfl, ?_⟩
    intro ev hev
    rcases mem_cons.mp hev with rfl | hev
    · exact .inl ⟨_, _, rfl⟩
    rcases mem_append.mp hev with hev | hev
    · split at hev
      · exact .inr (.inl ⟨_, _, _, _, mem_singleton.mp hev⟩)
      · exact absurd hev not_mem_nil
    · split_ifs at hev
      · exact .inr (.inr ⟨_, _, _, mem_singleton.mp hev⟩)
      · exact absurd hev not_mem_nil

theorem startAggressiveSpray_log (e : Env) (s : Agent) : s.log <:+ (s.startAggressiveSpray e).log := by
  rcases startAggressiveSpray_cases e s with ⟨h, -⟩ | ⟨new, t, h, hf⟩
  · rw [h.log]
  · rw [← h.log]
    exact (suffix_cons _ _).trans hf.frame.log_suffix

theorem tryNominate_log (e : Env) (s : Agent) : s.log <:+ (s.tryNominate e).log := by
  rcases tryNominate_cases e s with ⟨h, -⟩ | ⟨-, -, ⟨i, p, -, -, hf⟩ | ⟨-, -, ⟨-, -, h⟩ | h⟩⟩
  · rw [h]
  · exact ((nominate_log i _ s).trans (setState_log _ _)).trans hf.frame.log_suffix
  · rw [h]
    exact startAggressiveSpray_log e s
  · rw [h]
    exact setState_log _ s

theorem onCheckResponse_log (e : Env) (msg : Option StunMsg) (i : ℕ) (s : Agent) :
    .result i (checkResult msg) (s.nominated = some i) :: s.log <:+ (s.onCheckResponse e msg i).log := by
  unfold Agent.onCheckResponse
  cases checkResult msg with
  | success => exact tryNominate_log e ((s.emit _).setPair i .succeeded)
  | conflict => exact sendCheck_log e i ((s.emit _).switchRole.setPair i .waiting)
  | failure => exact tryNominate_log e ((s.emit _).setPair i .failed)

theorem restart_log (sort : PairSort) (s : Agent) :
    .generated s.pairs (sort.sort s.allPairs) s.outstanding s.nominated :: s.log <:+ (s.restart sort).log := by
  unfold Agent.restart Agent.startChecks
  split_ifs
  · exact setState_log .failed (s.generatePairs sort)
  · exact setState_log .checking (s.generatePairs sort)

theorem nominateByPeer_log (src : Addr) (s : Agent) : s.log <:+ (s.nominateByPeer src).log := by
  unfold Agent.nominateByPeer
  split
  · exact suffix_refl _
  · exact (nominate_log _ .peer s).trans (setState_log _ _)

theorem consentCb_log (e : Env) (s : Agent) : s.log <:+ (s.consentCb e).log := by
  rcases consentCb_cases e s with ⟨h, -⟩ | ⟨ev, h, -⟩
  · rw [h]
  · rw [h]
    exact suffix_cons _ _

variable {ans : Sock → Addr → Bytes → Bool → Prop} {suc : Bytes → Prop}

theorem Act.log_suffix (h : Act Frame sort e ans suc s t) : s.log <:+ t.log := by
  cases h with
  | frame hf => exact hf.log_suffix
  | send i => exact sendCheck_log e i s
  | again | respond | useCandidate => exact suffix_cons _ _
  | result c mgr msg => exact (suffix_cons _ _).trans (onCheckResponse_log e msg c.pair { s with txnMgr := mgr })
  | tryNominate => exact tryNominate_log e s
  | timeoutNominate i => exact (nominate_log i .checkTimeout s).trans (setState_log _ _)
  | spray => exact startAggressiveSpray_log e s
  | fail => exact setState_log _ s
  | restart => exact (suffix_cons _ _).trans (restart_log sort s)
  | restartFailed => exact (suffix_cons _ _).trans (restart_log sort { s with nominated := none })
  | addPairs => exact suffix_refl _
  | peer sock src => exact nominateByPeer_log src s
  | consent => exact consentCb_log e { s with timers := s.timers.erase .consent }

/-- **Invariant rule** under a condition on what was done. -/
theorem Acts.preserves_while {fine : Event → Bool} {I : Agent → Prop}
    (hI : ∀ s t, I s → Act Frame sort e ans suc s t → (∀ ev ∈ t.log, fine ev = true) → I t)
    (h : Acts Frame sort e ans suc s t) (h0 : (∀ ev ∈ s.log, fine ev = true) → I s) :
    (∀ ev ∈ t.log, fine ev = true) → I t := by
  refine h.preserves (I := fun u => (∀ ev ∈ u.log, fine ev = true) → I u) ?_ h0
  intro u v hu hv hlog
  exact hI u v (hu (fun ev hev => hlog ev (hv.log_suffix.subset hev))) hv hlog

theorem run_preserves_while {hmac : Bytes → Bytes → Bytes} {fine : Event → Bool} {I : Agent → Prop}
    (hI : ∀ (e : Env) ans suc s t, I s → Act Frame sort e ans suc s t → (∀ ev ∈ t.log, fine ev = true) → I t)
    (h : Core.Run (step sort hmac) (fun _ _ => True) s t) (h0 : I s) :
    (∀ ev ∈ t.log, fine ev = true) → I t := by
  refine h.preserves (I := fun u => (∀ ev ∈ u.log, fine ev = true) → I u) ?_ (fun _ => h0)
  intro u m v hu _ hv
  exact (acts_of_step hv).preserves_while (hI m.1 _ _) hu

end Agent

/-! ### A local network, for runs on fixed inputs -/

/-- Every send comes through, and the transaction identifiers count. -/
def lan : Env where
  sendOk _ := true
  turnOk _ := true
  memory _ := true
  dnsOk _ := true
  txnId n := List.replicate 11 0 ++ [n.toUInt8]
  port n := n
  stray := .unspec

def lanAddr (n : ℕ) : Addr := .v4 (0xC0A80000 + n) 5000

def lanIface : Agent.Iface where
  addr := lanAddr 1
  sock := some 0

def lanCandidate (n : ℕ) : Candidate where
  type := .host
  priority := candidatePriority .host (65535 - n)
  addr := lanAddr n

/-- The description of a peer with the candidates `ns`. -/
def lanPeer (ns : List ℕ) : Agent.Description where
  iceUfrag := [112]
  icePwd := [119]
  candidates := ns.map lanCandidate

/-- A response of the class `cls`, without attributes, to the `n`-th transaction. -/
def lanAnswer (cls : UInt8) (n : ℕ) : Bytes := [1, cls, 0, 0] ++ magicCookie ++ lan.txnId n

def lanAgent (role : Role) : Agent := Agent.create { role := role } [117] [118]

def lanHmac : Bytes → Bytes → Bytes := fun _ _ => List.replicate 20 0

def lanStep : Agent → Env × Agent.Input → Option Agent := Agent.step .stable lanHmac

theorem lanRun {p : Agent → Bool} {role : Role} {ms : List (Env × Agent.Input)}
    (h : Core.replay lanStep (fun _ _ => true) p (lanAgent role) ms = true) :
    ∃ s, Core.Run lanStep (fun _ _ => True) (lanAgent role) s ∧ p s = true :=
  Core.exists_run_of_replay lanStep (fun _ _ => True) (fun _ _ => true) p (fun _ _ _ => trivial) h

end Libx.Ice
