import Libx.Ice.Gather

/-!
# Libx.Ice.Frame — what the two halves of the agent leave alone

The gathering leaves the checks alone, and the checks leave the gathering alone.
-/

namespace Libx.Ice

open List

/-! ### The table and the checks in it -/

variable {m : TxnMgr Ctx Request}

theorem checksOf_perm {m' : TxnMgr Ctx Request} (h : m.Perm m') : (checksOf m).Perm (checksOf m') :=
  h.filterMap _

theorem checksOf_cons (t : Txn Ctx Request) (m : TxnMgr Ctx Request) :
    checksOf (t :: m) = t.check.toList ++ checksOf m := by
  unfold checksOf
  rw [filterMap_cons]
  cases t.check with
  | none | some c => rfl

theorem checksOf_concat (m : TxnMgr Ctx Request) (t : Txn Ctx Request) :
    checksOf (m ++ [t]) = checksOf m ++ t.check.toList := by
  unfold checksOf
  rw [filterMap_append, filterMap_cons]
  cases t.check with
  | none | some c => rfl

theorem checksOf_free {t : Txn Ctx Request} {i : ℕ} (h : m[i]? = some t) :
    (t.check.toList ++ checksOf (m.free i)).Perm (checksOf m) := by
  rw [← checksOf_cons]
  exact checksOf_perm (TxnMgr.free_perm h)

theorem checksOf_set {t u : Txn Ctx Request} {i : ℕ} (h : m[i]? = some t) :
    (t.check.toList ++ checksOf (m.set i u)).Perm (u.check.toList ++ checksOf m) := by
  obtain ⟨hi, rfl⟩ := List.getElem?_eq_some_iff.mp h
  have h1 : (m.set i u).Perm (u :: m.eraseIdx i) := set_perm_cons_eraseIdx hi u
  have h2 : (m[i] :: m.eraseIdx i).Perm m := getElem_cons_eraseIdx_perm hi
  have h3 := checksOf_perm h1
  have h4 := checksOf_perm h2
  rw [checksOf_cons] at h3 h4
  refine (h3.append_left _).trans ?_
  refine perm_append_comm_assoc _ _ _ |>.trans ?_
  exact h4.append_left _

/-! ### What a check changes -/

namespace Agent

variable (e : Env) (i : ℕ) (s : Agent)

@[simp] theorem sendCheck_state : (s.sendCheck e i).state = s.state := by
  unfold Agent.sendCheck
  split <;> rfl

@[simp] theorem sendCheck_nominated : (s.sendCheck e i).nominated = s.nominated := by
  unfold Agent.sendCheck
  split <;> rfl

@[simp] theorem sendCheck_timers : (s.sendCheck e i).timers = s.timers := by
  unfold Agent.sendCheck
  split <;> rfl

@[simp] theorem sendCheck_pairs :
    (s.sendCheck e i).pairs = s.pairs.modify i (fun p => { p with state := .inProgress }) := by
  unfold Agent.sendCheck
  cases hp : s.pairs[i]? with
  | none => exact (modify_eq_self (List.getElem?_eq_none_iff.mp hp)).symm
  | some p => rfl

end Agent

/-! ### Frames -/

def Event.quiet : Event → Bool
  | .unsent | .lateResult | .state _ | .candidate _ | .endOfCandidates .. | .noMemory | .gatherRequest .. | .gathered _
  | .turnResult .. => true
  | _ => false

def Event.aside : Event → Bool
  | .candidate _ | .endOfCandidates .. | .noMemory | .gathered _ => false
  | .gatherRequest ctx _ => ctx ≠ none && ctx ≠ some .allocate
  | .turnResult ctx .. => ctx = .permission
  | _ => true

namespace Agent

variable {sort : PairSort} {e : Env} {s t u : Agent} {i : ℕ}

/-- The checks are left alone. -/
structure Frame (s s' : Agent) : Prop where
  pairs : s'.pairs = s.pairs
  nominated : s'.nominated = s.nominated
  state : s'.state = s.state ∨
    (s.state = .new ∨ s.state = .gathering) ∧ (s'.state = .gathering ∨ s'.state = .failed)
  checks : s'.checks.Perm s.checks
  locals : s.localCandidates <+: s'.localCandidates
  remotes : s.remoteCandidates <+: s'.remoteCandidates
  consent : .consent ∈ s.timers → .consent ∈ s'.timers
  log : ∃ evs, s'.log = evs ++ s.log ∧ ∀ ev ∈ evs, ev.quiet = true

theorem Frame.refl (s : Agent) : Frame s s :=
  ⟨rfl, rfl, .inl rfl, .refl _, prefix_refl _, prefix_refl _, id, [], rfl, by simp⟩

theorem Frame.trans (h₁ : Frame s t) (h₂ : Frame t u) : Frame s u := by
  obtain ⟨ev1, hl1, hq1⟩ := h₁.log
  obtain ⟨ev2, hl2, hq2⟩ := h₂.log
  refine ⟨h₂.pairs.trans h₁.pairs, h₂.nominated.trans h₁.nominated, ?_, h₂.checks.trans h₁.checks,
    h₁.locals.trans h₂.locals, h₁.remotes.trans h₂.remotes, fun h => h₂.consent (h₁.consent h),
    ev2 ++ ev1, ?_, ?_⟩
  · rcases h₂.state with h2 | ⟨h2, h2'⟩
    · rw [h2]
      exact h₁.state
    · rcases h₁.state with h1 | ⟨h1, -⟩
      · rw [h1] at h2
        exact .inr ⟨h2, h2'⟩
      · exact .inr ⟨h1, h2'⟩
  · rw [hl2, hl1, append_assoc]
  · intro ev hev
    rcases mem_append.mp hev with h | h
    · exact hq2 ev h
    · exact hq1 ev h

theorem Frame.of_eq (h : (t.pairs, t.nominated, t.state, t.txnMgr) = (s.pairs, s.nominated, s.state, s.txnMgr))
    (h' : (t.localCandidates, t.remoteCandidates, t.timers, t.log) =
      (s.localCandidates, s.remoteCandidates, s.timers, s.log)) : Frame s t := by
  simp only [Prod.mk.injEq] at h h'
  obtain ⟨h1, h2, h3, h4⟩ := h
  obtain ⟨h5, h6, h7, h8⟩ := h'
  refine ⟨h1, h2, .inl h3, ?_, ?_, ?_, ?_, [], h8, by simp⟩
  · rw [Agent.checks, Agent.checks, h4]
  · rw [h5]
  · rw [h6]
  · rw [h7]
    exact id

theorem Frame.emit (s : Agent) {v : Event} (h : v.quiet = true) : Frame s (s.emit v) :=
  ⟨rfl, rfl, .inl rfl, .refl _, prefix_refl _, prefix_refl _, id, [v], rfl, by simpa using h⟩

theorem Frame.table {mgr : TxnMgr Ctx Request} (h : (checksOf mgr).Perm s.checks) :
    Frame s { s with txnMgr := mgr } :=
  ⟨rfl, rfl, .inl rfl, h, prefix_refl _, prefix_refl _, id, [], rfl, by simp⟩

theorem Frame.timers {ts : List Timer} (h : .consent ∈ s.timers → .consent ∈ ts) :
    Frame s { s with timers := ts } :=
  ⟨rfl, rfl, .inl rfl, .refl _, prefix_refl _, prefix_refl _, h, [], rfl, by simp⟩

theorem Frame.arm (t : Timer) (s : Agent) : Frame s (s.arm t) := Frame.timers (mem_cons_of_mem t)

variable {k : Timer}

theorem Frame.erase (hk : k ≠ .consent) (s : Agent) :
    Frame s { s with timers := s.timers.erase k } :=
  Frame.timers (fun h => (mem_erase_of_ne hk.symm).mpr h)

theorem Frame.cancel (hk : k ≠ .consent) (set : Bool) (s : Agent) : Frame s (s.cancel k set) := by
  cases set with
  | false => exact Frame.of_eq rfl rfl
  | true => exact Frame.erase hk s

theorem Frame.addLocal (c : Candidate) (s : Agent) : Frame s (s.addLocal c) := by
  have h1 : Frame s { s with localCandidates := s.localCandidates ++ [c] } :=
    ⟨rfl, rfl, .inl rfl, .refl _, prefix_append _ _, prefix_refl _, id, [], rfl, by simp⟩
  unfold Agent.addLocal
  split_ifs
  · exact h1
  · exact h1.trans (Frame.emit _ rfl)

theorem Frame.createSrflxCandidate (hi : ℕ) (a : Addr) (pref : ℕ) (s : Agent) :
    Frame s (s.createSrflxCandidate hi a pref) := by
  unfold Agent.createSrflxCandidate
  split_ifs
  · exact .refl s
  · exact Frame.addLocal _ s

theorem Frame.predictLoop (hi : ℕ) (a : Addr) (delta : ℕ) :
    ∀ (n k : ℕ) (s : Agent), Frame s (s.predictLoop hi a delta n k)
  | 0, _, s => .refl s
  | n + 1, k, s => by
    unfold Agent.predictLoop
    dsimp only
    split_ifs
    · exact .refl s
    · exact .refl s
    · exact (Frame.createSrflxCandidate hi _ _ s).trans (Frame.predictLoop hi a delta n (k + 1) _)

theorem Frame.finalizeSrflxForHost (e : Env) (hi : ℕ) (s : Agent) : Frame s (s.finalizeSrflxForHost e hi) := by
  have h1 := (Frame.emit s (v := .gathered s.gatheringDone) rfl).trans (Frame.createSrflxCandidate hi
    ((((List.range (s.srflxExpected hi)).filter (fun si => (s.srflxMapped hi si).isSome)).getLast?.bind
      (s.srflxMapped hi)).getD e.stray) (65535 - hi) _)
  unfold Agent.finalizeSrflxForHost
  dsimp only
  refine h1.trans ?_
  split
  · split_ifs
    · exact .refl _
    · exact .refl _
    · exact Frame.of_eq rfl rfl
    all_goals exact Frame.predictLoop _ _ _ _ _ _
  · exact .refl _

theorem Frame.turnClient (tc : Option TurnClient) (s : Agent) : Frame s { s with turnClient := tc } :=
  Frame.of_eq rfl rfl

theorem Frame.turnSend (e : Env) (ctx : TurnCtx) (msg : Request) (s : Agent) : Frame s (s.turnSend e ctx msg) := by
  unfold Agent.turnSend
  cases s.turnClient with
  | none => exact .refl s
  | some tc =>
    exact ⟨rfl, rfl, .inl rfl, .refl _, prefix_refl _, prefix_refl _, id, [_], rfl, by simp [Event.quiet]⟩

theorem Frame.addTurnCandidate (type : CandidateType) (pref : ℕ) (a : Addr) (s : Agent) :
    Frame s (s.addTurnCandidate type pref a) := by
  unfold Agent.addTurnCandidate
  split_ifs
  · exact .refl s
  · exact Frame.addLocal _ s
  · exact Frame.addLocal _ s

/-! ### Gathering left alone -/

/-- The gathering's count is left alone, and what was done is as `p` says. -/
structure Apart (p : Event → Bool) (s t : Agent) : Prop where
  counted : (t.pendingGather, t.gatheringDone, t.hostCount) = (s.pendingGather, s.gatheringDone, s.hostCount)
  queries : (t.stunDnsPending, t.stunDnsQueries, t.turnDnsQuery) =
    (s.stunDnsPending, s.stunDnsQueries, s.turnDnsQuery)
  bindings : t.bindings = s.bindings
  allocations : t.allocations = s.allocations
  timer : t.gatherTimer = s.gatherTimer
  timers : t.timers.count .gather = s.timers.count .gather
  log : ∃ evs, t.log = evs ++ s.log ∧ ∀ ev ∈ evs, p ev = true

/-- The gathering is left alone. -/
abbrev Aside (s t : Agent) : Prop := Apart Event.aside s t

variable {p : Event → Bool}

theorem Apart.refl (s : Agent) : Apart p s s :=
  ⟨rfl, rfl, rfl, rfl, rfl, rfl, [], rfl, by simp⟩

theorem Apart.trans (h₁ : Apart p s t) (h₂ : Apart p t u) : Apart p s u := by
  obtain ⟨ev1, hl1, hq1⟩ := h₁.log
  obtain ⟨ev2, hl2, hq2⟩ := h₂.log
  refine ⟨h₂.counted.trans h₁.counted, h₂.queries.trans h₁.queries, h₂.bindings.trans h₁.bindings,
    h₂.allocations.trans h₁.allocations, h₂.timer.trans h₁.timer, h₂.timers.trans h₁.timers, ev2 ++ ev1, ?_, ?_⟩
  · rw [hl2, hl1, append_assoc]
  · intro ev hev
    rcases mem_append.mp hev with h | h
    · exact hq2 ev h
    · exact hq1 ev h

/-- Both halves are left alone. -/
structure Still (s t : Agent) : Prop where
  frame : Frame s t
  aside : Aside s t
  state : t.state = s.state

theorem Still.refl (s : Agent) : Still s s := ⟨.refl s, .refl s, rfl⟩

theorem Still.trans (h₁ : Still s t) (h₂ : Still t u) : Still s u :=
  ⟨h₁.frame.trans h₂.frame, h₁.aside.trans h₂.aside, h₂.state.trans h₁.state⟩

theorem Apart.of_eq (h : (t.pendingGather, t.gatheringDone, t.hostCount, t.gatherTimer) =
      (s.pendingGather, s.gatheringDone, s.hostCount, s.gatherTimer))
    (h' : (t.stunDnsPending, t.stunDnsQueries, t.turnDnsQuery, t.turnClient) =
      (s.stunDnsPending, s.stunDnsQueries, s.turnDnsQuery, s.turnClient))
    (h'' : (t.txnMgr, t.timers, t.log) = (s.txnMgr, s.timers, s.log)) : Apart p s t := by
  simp only [Prod.mk.injEq] at h h' h''
  obtain ⟨h1, h2, h3, h4⟩ := h
  obtain ⟨h5, h6, h7, h8⟩ := h'
  obtain ⟨h9, h10, h11⟩ := h''
  refine ⟨by rw [h1, h2, h3], by rw [h5, h6, h7], ?_, ?_, h4, by rw [h10], [], h11, by simp⟩
  · unfold Agent.bindings
    rw [h9]
  · unfold Agent.allocations
    rw [h8]

theorem Still.of_eq (h : (t.pairs, t.nominated, t.state, t.txnMgr) = (s.pairs, s.nominated, s.state, s.txnMgr))
    (h' : (t.localCandidates, t.remoteCandidates, t.timers, t.log) =
      (s.localCandidates, s.remoteCandidates, s.timers, s.log))
    (g : (t.pendingGather, t.gatheringDone, t.hostCount, t.gatherTimer) =
      (s.pendingGather, s.gatheringDone, s.hostCount, s.gatherTimer))
    (g' : (t.stunDnsPending, t.stunDnsQueries, t.turnDnsQuery, t.turnClient) =
      (s.stunDnsPending, s.stunDnsQueries, s.turnDnsQuery, s.turnClient)) : Still s t := by
  refine ⟨Frame.of_eq h h', Apart.of_eq g g' ?_, ?_⟩
  · simp only [Prod.mk.injEq] at h h'
    rw [h.2.2.2, h'.2.2.1, h'.2.2.2]
  · simp only [Prod.mk.injEq] at h
    exact h.2.2.1

theorem Still.emit (s : Agent) {v : Event} (hq : v.quiet = true) (ha : v.aside = true) : Still s (s.emit v) :=
  ⟨Frame.emit s hq, ⟨rfl, rfl, rfl, rfl, rfl, rfl, [v], rfl, by simpa using ha⟩, rfl⟩

theorem Still.foldl {α : Type} (f : Agent → α → Agent) (hf : ∀ s a, Still s (f s a)) :
    ∀ (l : List α) (s : Agent), Still s (l.foldl f s)
  | [], s => .refl s
  | a :: l, s => (hf s a).trans (Still.foldl f hf l (f s a))

theorem Still.arm (hg : k ≠ .gather) (s : Agent) : Still s (s.arm k) := by
  refine ⟨Frame.arm k s, ⟨rfl, rfl, rfl, rfl, rfl, ?_, [], rfl, by simp⟩, rfl⟩
  exact count_cons_of_ne hg

theorem Still.erase (hc : k ≠ .consent) (hg : k ≠ .gather) (s : Agent) :
    Still s { s with timers := s.timers.erase k } := by
  refine ⟨Frame.erase hc s, ⟨rfl, rfl, rfl, rfl, rfl, ?_, [], rfl, by simp⟩, rfl⟩
  exact count_erase_of_ne hg.symm

theorem Still.cancel (hc : k ≠ .consent) (hg : k ≠ .gather) (set : Bool) (s : Agent) :
    Still s (s.cancel k set) := by
  cases set with
  | false => exact Still.of_eq rfl rfl rfl rfl
  | true => exact Still.erase hc hg s

theorem Still.addRemoteCandidate (c : Candidate) (s : Agent) :
    Still s { s with remoteCandidates := s.remoteCandidates ++ [c] } :=
  ⟨⟨rfl, rfl, .inl rfl, .refl _, prefix_refl _, prefix_append _ _, id, [], rfl, by simp⟩,
    Apart.of_eq rfl rfl rfl, rfl⟩

theorem Still.addRemotes : ∀ (cs : List Candidate) (s : Agent), Still s (s.addRemotes cs)
  | [], s => .refl s
  | c :: cs, s => by
    have h1 : Still s (s.addRemote c) := by
      unfold Agent.addRemote
      split_ifs
      · exact .refl s
      · exact Still.addRemoteCandidate c s
    unfold Agent.addRemotes
    split_ifs
    · exact .refl s
    · exact h1.trans (Still.addRemotes cs _)

theorem Still.turnClient {tc tc' : TurnClient} (h : s.turnClient = some tc) (hm : tc'.txnMgr = tc.txnMgr) :
    Still s { s with turnClient := some tc' } := by
  refine ⟨Frame.turnClient _ s, ⟨rfl, rfl, rfl, ?_, rfl, rfl, [], rfl, by simp⟩, rfl⟩
  unfold Agent.allocations
  rw [h]
  show tc'.txnMgr.countP Txn.allocation = tc.txnMgr.countP Txn.allocation
  rw [hm]

theorem Still.turnSend {ctx : TurnCtx} (hctx : ctx ≠ .allocate) (e : Env) (msg : Request) (s : Agent) :
    Still s (s.turnSend e ctx msg) := by
  have hst : (s.turnSend e ctx msg).state = s.state := by
    unfold Agent.turnSend
    cases s.turnClient <;> rfl
  refine ⟨Frame.turnSend e ctx msg s, ?_, hst⟩
  unfold Agent.turnSend
  cases h : s.turnClient with
  | none => exact .refl s
  | some tc =>
    refine ⟨rfl, rfl, rfl, ?_, rfl, rfl, [_], rfl, by simpa [Event.aside] using hctx⟩
    unfold Agent.allocations
    rw [h]
    show (Option.getD _ tc.txnMgr).countP Txn.allocation = tc.txnMgr.countP Txn.allocation
    cases hm : tc.txnMgr.sendRaw _ _ with
    | none => rfl
    | some mgr =>
      rw [Option.getD_some, TxnMgr.sendRaw_eq_some hm, countP_append]
      simp [Txn.allocation, hctx]

theorem Still.createPermission (e : Env) (peer : Addr) (s : Agent) : Still s (s.createPermission e peer) := by
  have hsend : ∀ s : Agent, Still s (s.turnSend e .permission .permission) := Still.turnSend (by decide) e .permission
  unfold Agent.createPermission
  cases h : s.turnClient with
  | none => exact .refl s
  | some tc =>
    dsimp only
    by_cases hst : tc.state ≠ .allocated
    · rw [if_pos hst]
      exact .refl s
    rw [if_neg hst]
    by_cases hfull : 16 ≤ tc.permissionCount
    · rw [if_pos hfull]
      exact .refl s
    rw [if_neg hfull]
    refine Still.trans (Still.turnClient h ?_) (hsend _)
    rfl

theorem Still.createPermissions (e : Env) (s : Agent) : Still s (s.createPermissions e) :=
  Still.foldl (fun (s : Agent) (c : Candidate) => s.createPermission e c.addr)
    (fun s c => Still.createPermission e c.addr s) s.remoteCandidates s

theorem Still.refreshTimerCb (e : Env) (s : Agent) : Still s (s.refreshTimerCb e) := by
  unfold Agent.refreshTimerCb
  cases h : s.turnClient with
  | none => exact .refl s
  | some tc =>
    have h1 : Still s { s with turnClient := some { tc with refreshTimer := false } } := Still.turnClient h rfl
    dsimp only
    refine h1.trans ?_
    split_ifs
    · exact .refl _
    · exact Still.turnSend (by decide) e .refresh _

theorem Still.cancelCheckTimeout (s : Agent) : Still s s.cancelCheckTimeout :=
  (Still.cancel (k := .checkTimeout) (by decide) (by decide) s.checkTimeout s).trans (Still.of_eq rfl rfl rfl rfl)

theorem Still.cancelAggressive (s : Agent) : Still s s.cancelAggressive := by
  unfold Agent.cancelAggressive
  cases s.aggressiveTimer with
  | none => exact Still.of_eq rfl rfl rfl rfl
  | some cb => exact (Still.erase (k := .aggressive cb) (by simp) (by simp) s).trans (Still.of_eq rfl rfl rfl rfl)

theorem Still.extendCheckTimeout (s : Agent) : Still s s.extendCheckTimeout :=
  ((Still.cancelCheckTimeout s).trans (Still.arm (k := .checkTimeout) (by decide) _)).trans (Still.of_eq rfl rfl rfl rfl)

theorem Still.scheduleNextCheck (s : Agent) : Still s s.scheduleNextCheck := by
  unfold Agent.scheduleNextCheck
  split_ifs
  · exact .refl s
  · exact Still.arm (k := .check) (by decide) s

theorem Still.armAggressive (cb : Aggressive) (s : Agent) : Still s (s.armAggressive cb) :=
  (Still.arm (k := .aggressive cb) (by simp) s).trans (Still.of_eq rfl rfl rfl rfl)

end Agent

end Libx.Ice
