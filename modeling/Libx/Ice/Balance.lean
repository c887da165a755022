import Libx.Ice.Outcome

/-!
# Libx.Ice.Balance — pairs in progress and checks under way

While the agent checks, a pair is in progress exactly while a check for it is under way, so that the
checks come to an end.
-/

namespace Libx.Ice

open Libx.Agent (Bytes)
open Libx.Core (Run)
open List

/-- The event keeps the balance: a check that is sent is registered, and there is none for its pair yet;
the pairs are made anew when no check is under way and no pair is nominated; a spray makes pairs. -/
def Event.keepsBalance : Event → Bool
  | .check _ was registered => registered && was ≠ .inProgress
  | .generated _ _ outstanding held => outstanding = [] && held = none
  | .sprayed count => count ≠ 0
  | .lateResult => false
  | _ => true

namespace Agent

variable {sort : PairSort} {e : Env} {s t u : Agent} {i : ℕ}

/-- No pair is stuck: those in progress are the ones an uncompleted check points to; and with no check
under way a pair has succeeded, or one is still to be checked, or all have failed and the agent fails. -/
structure Unstuck (s : Agent) : Prop where
  inProgress : ∀ (i : ℕ) (p : Pair), s.pairs[i]? = some p → (p.state = .inProgress ↔ i ∈ s.outstanding)
  rest : s.outstanding = [] → (∃ p ∈ s.pairs, p.state = .succeeded) ∨ (∃ p ∈ s.pairs, p.pending = true) ∨
    (∀ p ∈ s.pairs, p.state = .failed) ∧ ∀ e, (s.tryNominate e).state = .failed

/-- The `i`-th pair is in progress. -/
def busy (s : Agent) (i : ℕ) : Bool := (s.pairs[i]?).any (fun p => p.state = .inProgress)

/-- One check for each pair in progress, and none for the others. -/
def Even (s : Agent) : Prop := ∀ i, s.outstanding.count i = if s.busy i then 1 else 0

/-- A checking agent has no nominated pair and one that has not failed, and its checks are even. -/
structure Balanced (s : Agent) : Prop where
  even : s.Even
  nominated : s.nominated = none
  unfailed : ∃ p ∈ s.pairs, p.state ≠ .failed

theorem Balanced.unstuck (h : s.Balanced) : s.Unstuck := by
  have hp : ∀ (i : ℕ) (p : Pair), s.pairs[i]? = some p → (p.state = .inProgress ↔ i ∈ s.outstanding) := by
    intro i p hp
    have hb : s.busy i = decide (p.state = .inProgress) := by
      unfold Agent.busy
      rw [hp]
      rfl
    have hc := h.even i
    rw [hb] at hc
    rw [← count_pos_iff, hc]
    by_cases hst : p.state = .inProgress
    · simp [hst]
    · simp [hst]
  refine ⟨hp, fun hnil => ?_⟩
  obtain ⟨p, hmem, hst⟩ := h.unfailed
  obtain ⟨i, hi, hget⟩ := mem_iff_getElem.mp hmem
  have hidle : p.state ≠ .inProgress := by
    intro hs
    have := (hp i p (hget ▸ List.getElem?_eq_getElem hi)).mp hs
    rw [hnil] at this
    exact absurd this not_mem_nil
  by_cases hs : p.state = .succeeded
  · exact .inl ⟨p, hmem, hs⟩
  · refine .inr (.inl ⟨p, hmem, ?_⟩)
    unfold Pair.pending
    cases h : p.state with
    | frozen | waiting => rfl
    | inProgress => exact absurd h hidle
    | succeeded => exact absurd h hs
    | failed => exact absurd h hst

/-! ### Evenness -/

theorem Even.mono (h : s.Even) (hc : t.checks.Perm s.checks) (hb : ∀ i, t.busy i = s.busy i) : t.Even := by
  intro i
  have hperm : t.outstanding.Perm s.outstanding := hc.map _
  rw [hperm.count_eq, hb, h i]

theorem Even.added {new : List Pair} (h : s.Even) (ha : Added new s t) : t.Even := by
  refine h.mono ?_ (fun i => ?_)
  · unfold Agent.checks
    rw [ha.txnMgr]
  · unfold Agent.busy
    rw [ha.pairs]
    by_cases hi : i < s.pairs.length
    · rw [List.getElem?_append_left hi]
    · have hnone : s.pairs[i]? = none := List.getElem?_eq_none_iff.mpr (by omega)
      rw [List.getElem?_append_right (by omega), hnone]
      cases hn : new[i - s.pairs.length]? with
      | none => rfl
      | some p =>
        rw [Option.any_some, ha.frozen p (mem_of_getElem? hn)]
        rfl

theorem busy_modify {st : PairState} (hs : t.pairs = s.pairs.modify i (fun p => { p with state := st }))
    (j : ℕ) : t.busy j = if i = j then (s.pairs[j]?).isSome && st = .inProgress else s.busy j := by
  unfold Agent.busy
  rw [hs, List.getElem?_modify]
  cases s.pairs[j]? with
  | none => split_ifs <;> rfl
  | some p =>
    show decide ((if i = j then _ else p : Pair).state = .inProgress) = _
    split_ifs
    · simp
    · rfl

/-! ### One act -/

theorem Balanced.mono (h : s.Balanced) (hc : t.checks.Perm s.checks) (hp : t.pairs = s.pairs)
    (hn : t.nominated = s.nominated) : t.Balanced := by
  refine ⟨h.even.mono hc (fun i => ?_), hn.trans h.nominated, hp ▸ h.unfailed⟩
  unfold Agent.busy
  rw [hp]

theorem Balanced.added {new : List Pair} (h : s.Balanced) (ha : Added new s t) : t.Balanced := by
  refine ⟨h.even.added ha, ha.nominated.trans h.nominated, ?_⟩
  obtain ⟨p, hp, hst⟩ := h.unfailed
  exact ⟨p, by rw [ha.pairs]; exact mem_append_left _ hp, hst⟩

theorem Even.sendCheck (h : s.Even) (hi : i < s.pairs.length)
    (hlog : ∀ ev ∈ (s.sendCheck e i).log, ev.keepsBalance = true) : (s.sendCheck e i).Even := by
  have hp := List.getElem?_eq_getElem hi
  obtain ⟨registered, hmem, hchecks⟩ := sendCheck_checks hp e
  have hev := hlog _ hmem
  unfold Event.keepsBalance at hev
  rw [Bool.and_eq_true, decide_eq_true_eq] at hev
  obtain ⟨rfl, hwas⟩ := hev
  have hout : (s.sendCheck e i).outstanding = s.outstanding ++ [i] := by
    unfold Agent.outstanding
    rw [hchecks, map_append]
    rfl
  intro j
  rw [hout, count_append, h j, busy_modify (sendCheck_pairs e i s) j, count_singleton]
  by_cases hij : i = j
  · subst hij
    have hb : s.busy i = false := by
      unfold Agent.busy
      rw [hp]
      exact decide_eq_false hwas
    rw [hb]
    simp [hi]
  · simp [hij]

theorem Even.ended {c : Check} {mgr : TxnMgr Ctx Request} {st : PairState} (h : s.Even) (hst : st ≠ .inProgress)
    (hm : (c :: checksOf mgr).Perm s.checks) (ht : t.txnMgr = mgr)
    (hp : t.pairs = s.pairs.modify c.pair (fun p => { p with state := st })) : t.Even := by
  have hout : (c.pair :: t.outstanding).Perm s.outstanding := by
    unfold Agent.outstanding Agent.checks
    rw [ht]
    exact hm.map Check.pair
  intro j
  have hcount := hout.count_eq j
  rw [count_cons, h j] at hcount
  rw [busy_modify hp j]
  by_cases hij : c.pair = j
  · subst hij
    have : s.busy c.pair = true := by
      by_contra hb
      rw [if_neg hb] at hcount
      simp at hcount
    rw [this] at hcount
    simp [hst] at hcount ⊢
    exact hcount
  · simp [hij] at hcount ⊢
    exact hcount

theorem Balanced.frame (h : s.Balanced) (hf : Frame s t) : t.Balanced := h.mono hf.checks hf.pairs hf.nominated

theorem Even.spray (h : s.Even) (hn : s.nominated = none) (hsrflx : s.srflxIps ≠ []) (hmode : s.aggressiveMode = false)
    (hlog : ∀ ev ∈ (s.startAggressiveSpray e).log, ev.keepsBalance = true) : (s.startAggressiveSpray e).Balanced := by
  rcases startAggressiveSpray_cases e s with ⟨-, h1 | h1⟩ | ⟨new, t, ha, hf⟩
  · rw [hmode] at h1
    exact absurd h1 (by decide)
  · exact absurd h1 hsrflx
  · have hmem : .sprayed new.length ∈ (s.startAggressiveSpray e).log := hf.frame.log_suffix.subset mem_cons_self
    have hne : new.length ≠ 0 := of_decide_eq_true (hlog _ hmem)
    obtain ⟨p, hp⟩ := exists_mem_of_length_pos (Nat.pos_of_ne_zero hne)
    have hbal : t.Balanced := by
      refine ⟨h.added ha, ha.nominated.trans hn, p, ?_, ?_⟩
      · rw [ha.pairs]
        exact mem_append_right _ hp
      · rw [ha.frozen p hp]
        decide
    exact Balanced.frame (s := t.emit (.sprayed new.length)) (hbal.mono (.refl _) rfl rfl) hf.frame

theorem Even.tryNominate (h : s.Even) (hs : s.state = .checking) (hn : s.nominated = none)
    (hlog : ∀ ev ∈ (s.tryNominate e).log, ev.keepsBalance = true) (ht : (s.tryNominate e).state = .checking) :
    (s.tryNominate e).Balanced := by
  rcases tryNominate_cases e s with ⟨h1, hany⟩ | ⟨-, -, ⟨i, p, -, -, hf⟩ | ⟨-, -, ⟨hsrflx, hmode, h1⟩ | h1⟩⟩
  · rw [h1]
    refine ⟨h, hn, ?_⟩
    rcases hany hs hn with hany | hany
    all_goals
      obtain ⟨p, hp, hst⟩ := any_eq_true.mp hany
      exact ⟨p, hp, by rw [of_decide_eq_true hst]; decide⟩
  · have hcon : (((s.nominate i .tryNominate).setState .connected).startConsent).state = .connected := rfl
    rw [hf.state, hcon] at ht
    exact absurd ht (by decide)
  · rw [h1] at hlog ⊢
    exact h.spray hn (srflxIps_ne_nil hsrflx) hmode hlog
  · rw [h1] at ht
    exact absurd (show AgentState.failed = .checking from ht) (by decide)

theorem Balanced.sendCheck (h : s.Even) (hn : s.nominated = none) (hi : i < s.pairs.length)
    (hlog : ∀ ev ∈ (s.sendCheck e i).log, ev.keepsBalance = true) : (s.sendCheck e i).Balanced := by
  refine ⟨h.sendCheck hi hlog, (sendCheck_nominated e i s).trans hn, { s.pairs[i] with state := .inProgress }, ?_, by simp⟩
  rw [sendCheck_pairs]
  refine mem_of_getElem? (i := i) ?_
  rw [List.getElem?_modify_eq, List.getElem?_eq_getElem hi]
  rfl

theorem Even.lt {c : Check} (h : s.Even) (hc : c ∈ s.checks) : c.pair < s.pairs.length := by
  have hpos : 0 < s.outstanding.count c.pair := count_pos_iff.mpr (mem_map_of_mem hc)
  rw [h c.pair] at hpos
  have hb : s.busy c.pair = true := by
    by_contra hb
    rw [if_neg hb] at hpos
    exact absurd hpos (by decide)
  obtain ⟨p, hp, -⟩ := (Option.any_eq_true _ _).mp hb
  exact (List.getElem?_eq_some_iff.mp hp).1

theorem Balanced.result {c : Check} {mgr : TxnMgr Ctx Request} {msg : Option StunMsg} (h : s.Balanced)
    (hs : s.state = .checking) (hm : (c :: checksOf mgr).Perm s.checks)
    (hlog : ∀ ev ∈ ({ s with txnMgr := mgr }.onCheckResponse e msg c.pair).log, ev.keepsBalance = true)
    (ht : ({ s with txnMgr := mgr }.onCheckResponse e msg c.pair).state = .checking) :
    ({ s with txnMgr := mgr }.onCheckResponse e msg c.pair).Balanced := by
  unfold Agent.onCheckResponse at hlog ht ⊢
  cases hr : checkResult msg with
  | success =>
    rw [hr] at hlog ht
    refine Even.tryNominate ?_ hs h.nominated hlog ht
    exact h.even.ended (show PairState.succeeded ≠ .inProgress by decide) hm rfl rfl
  | failure =>
    rw [hr] at hlog ht
    refine Even.tryNominate ?_ hs h.nominated hlog ht
    exact h.even.ended (show PairState.failed ≠ .inProgress by decide) hm rfl rfl
  | conflict =>
    rw [hr] at hlog
    refine Balanced.sendCheck ?_ h.nominated ?_ hlog
    · exact h.even.ended (show PairState.waiting ≠ .inProgress by decide) hm rfl rfl
    · show c.pair < (s.pairs.modify c.pair _).length
      rw [length_modify]
      exact h.even.lt (hm.subset mem_cons_self)

theorem Balanced.restart (hlog : ∀ ev ∈ (s.restart sort).log, ev.keepsBalance = true)
    (ht : (s.restart sort).state = .checking) : (s.restart sort).Balanced := by
  have hev := hlog _ ((restart_log sort s).subset mem_cons_self)
  unfold Event.keepsBalance at hev
  rw [Bool.and_eq_true, decide_eq_true_eq, decide_eq_true_eq] at hev
  obtain ⟨hnone, hheld⟩ := hev
  obtain ⟨hpairs, hchecks, hnom, hstate⟩ := restart_spec sort s
  have hfrozen : ∀ p ∈ (s.restart sort).pairs, p.state = .frozen := by
    intro p hp
    rw [hpairs] at hp
    exact s.allPairs_frozen p ((sort.perm _).subset hp)
  refine ⟨fun i => ?_, hnom.trans hheld, ?_⟩
  · have hout : (s.restart sort).outstanding = [] := by
      unfold Agent.outstanding at hnone ⊢
      rw [hchecks, hnone]
    have hb : (s.restart sort).busy i = false := by
      unfold Agent.busy
      cases hp : (s.restart sort).pairs[i]? with
      | none => rfl
      | some p =>
        rw [Option.any_some, hfrozen p (mem_of_getElem? hp)]
        rfl
    rw [hout, hb]
    rfl
  · rw [hstate] at ht
    by_cases hnil : sort.sort s.allPairs = []
    · rw [if_pos hnil] at ht
      exact absurd ht (by decide)
    · obtain ⟨p, ps, hcons⟩ := exists_cons_of_ne_nil hnil
      have hp : p ∈ (s.restart sort).pairs := by
        rw [hpairs, hcons]
        exact mem_cons_self
      exact ⟨p, hp, by rw [hfrozen p hp]; decide⟩

variable {ans : Sock → Addr → Bytes → Bool → Prop} {suc : Bytes → Prop}

/-- **What an act that keeps the balance keeps.** -/
theorem balanced_act (h : s.state = .checking → s.Balanced) (ha : Act Frame sort e ans suc s t)
    (hlog : ∀ ev ∈ t.log, ev.keepsBalance = true) (ht : t.state = .checking) : t.Balanced := by
  cases ha with
  | frame hf =>
    refine Balanced.frame (h ?_) hf
    rcases hf.state with hst | ⟨-, hst | hst⟩
    · rw [← hst]
      exact ht
    all_goals
      rw [hst] at ht
      exact absurd ht (by decide)
  | send i hs hi => exact Balanced.sendCheck (h hs).even (h hs).nominated hi hlog
  | again | respond | useCandidate => exact (h ht).mono (.refl _) rfl rfl
  | result c mgr msg hm =>
    have hs : s.state = .checking := checking_of_onCheckResponse (s := { s with txnMgr := mgr }) ht
    exact (h hs).result hs hm hlog ht
  | tryNominate =>
    have hs := checking_of_tryNominate ht
    exact (h hs).even.tryNominate hs (h hs).nominated hlog ht
  | timeoutNominate i => exact absurd (show AgentState.connected = .checking from ht) (by decide)
  | spray hs hn =>
    rcases startAggressiveSpray_cases e s with ⟨ha, -⟩ | ⟨new, t, ha, hf⟩
    · exact (h hs).added ha
    · exact Balanced.frame (s := t.emit (.sprayed new.length)) (((h hs).added ha).mono (.refl _) rfl rfl) hf.frame
  | fail => exact absurd (show AgentState.failed = .checking from ht) (by decide)
  | restart | restartFailed => exact Balanced.restart hlog ht
  | addPairs ok r hs =>
    obtain ⟨new, hadd⟩ := addPairs_added ok r s
    exact (h hs).added hadd
  | peer sock src =>
    unfold Agent.nominateByPeer at ht ⊢
    cases hi : s.pairs.findIdx? (fun p => sockaddrEqual src (s.remoteOf p).addr) with
    | none =>
      rw [hi] at ht
      exact h ht
    | some i =>
      rw [hi] at ht
      exact absurd (show AgentState.connected = .checking from ht) (by decide)
  | consent =>
    rcases consentCb_cases e { s with timers := s.timers.erase .consent } with ⟨h1, -⟩ | ⟨ev, h1, -⟩
    all_goals
      rw [h1] at ht ⊢
      exact (h ht).mono (.refl _) rfl rfl

/-- **In a run of which every event keeps the balance no pair is ever stuck.** -/
theorem unstuck_of_run {hmac : Bytes → Bytes → Bytes} {conf : Conf} {ufrag pwd : Bytes}
    (h : Run (step sort hmac) (fun _ _ => True) (create conf ufrag pwd) s)
    (hlog : ∀ ev ∈ s.log, ev.keepsBalance = true) (hs : s.state = .checking) : s.Unstuck := by
  refine Balanced.unstuck (run_preserves_while (I := fun s => s.state = .checking → s.Balanced)
    (fun _ _ _ _ _ hi ha hl => balanced_act hi ha hl) h ?_ hlog hs)
  exact fun h => absurd (show AgentState.new = .checking from h) (by decide)

/-- A peer with two addresses, and the first paced check under `e`. -/
def lanChecking (e : Env) : List (Env × Input) :=
  [(lan, .setRemoteDescription (lanPeer [2, 3])), (lan, .gather (some [lanIface])), (e, .timer .check)]

theorem unstuck_of_run_lan :
    ∃ s, Run lanStep (fun _ _ => True) (lanAgent .controlling) s ∧ s.outstanding = [0] ∧ s.Unstuck := by
  obtain ⟨s, hs, hp⟩ := lanRun
    (p := fun s => s.outstanding = [0] && (s.state = .checking && s.log.all Event.keepsBalance))
    (show Core.replay lanStep _ _ (lanAgent .controlling) (lanChecking lan) = true by decide +kernel)
  rw [Bool.and_eq_true, Bool.and_eq_true, decide_eq_true_eq, decide_eq_true_eq, all_eq_true] at hp
  exact ⟨s, hs, hp.1, unstuck_of_run hs hp.2.2 hp.2.1⟩

/-- A send that fails leaves the pair in progress, with no check under way. -/
theorem not_unstuck_lan :
    ∃ s, Run lanStep (fun _ _ => True) (lanAgent .controlling) s ∧ s.state = .checking ∧ ¬ s.Unstuck := by
  obtain ⟨s, hs, hp⟩ := lanRun (p := fun s => s.state = .checking && (s.busy 0 && s.outstanding = []))
    (show Core.replay lanStep _ _ (lanAgent .controlling) (lanChecking { lan with sendOk := fun _ => false }) = true
      by decide +kernel)
  rw [Bool.and_eq_true, Bool.and_eq_true, decide_eq_true_eq, decide_eq_true_eq] at hp
  obtain ⟨hst, hbusy, hnone⟩ := hp
  refine ⟨s, hs, hst, fun h => ?_⟩
  obtain ⟨p, hget, hprog⟩ := (Option.any_eq_true _ _).mp hbusy
  have := (h.inProgress 0 p hget).mp (of_decide_eq_true hprog)
  rw [hnone] at this
  exact absurd this not_mem_nil

end Agent

end Libx.Ice
