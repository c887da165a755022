import Libx.Ice.Outcome

/-!
# Libx.Ice.Connected — what being connected rests on

A connected agent relies on the pair it has nominated: the pair is there, its check came back, and the
consent timer runs.
-/

namespace Libx.Ice

open Libx.Agent (Bytes)
open Libx.Core (Run)
open List

def Event.nominee : Event → Option (ℕ × ℕ)
  | .nominated _ ends _ => some ends
  | _ => none

/-- The event breaks no nomination: the check timeout nominates nothing, the pairs are not made anew
under a nominated one, and its own check does not fail. -/
def Event.keepsNomination : Event → Bool
  | .nominated _ _ origin => origin ≠ .checkTimeout
  | .generated _ _ _ held => held = none
  | .result _ r held => !held || r = .success
  | .lateResult => false
  | _ => true

namespace Agent

variable {sort : PairSort} {e : Env} {s t u : Agent} {i : ℕ}

def nominee (s : Agent) : Option (ℕ × ℕ) := s.log.findSome? Event.nominee

/-- The nominated pair is one of the pairs, has succeeded and is the one that was nominated, and the
consent timer runs. -/
def Relies (s : Agent) : Prop :=
  ∃ i p, s.nominated = some i ∧ s.pairs[i]? = some p ∧ p.state = .succeeded ∧ s.nominee = some p.ends ∧
    .consent ∈ s.timers

/-- What the states promise. -/
structure Settled (s : Agent) : Prop where
  connected : s.state = .connected → s.Relies
  checking : s.state = .checking → s.nominated = none

/-- The agent is connected by a nominated pair, or there is no nominated pair. -/
def Nominal (s : Agent) : Prop := s.nominated = none ∧ s.state ≠ .connected ∨ s.state = .connected ∧ s.Relies

theorem Nominal.settled (h : s.Nominal) : s.Settled := by
  rcases h with ⟨hn, hs⟩ | ⟨hs, hr⟩
  · exact ⟨fun h => absurd h hs, fun _ => hn⟩
  · refine ⟨fun _ => hr, fun h => ?_⟩
    rw [hs] at h
    exact absurd h (by decide)

/-! ### One act -/

theorem nominee_of_log {l : List Event} (hl : t.log = l ++ s.log)
    (h : ∀ ev ∈ l, ev.nominee = none) : t.nominee = s.nominee := by
  unfold nominee
  rw [hl, List.findSome?_append, List.findSome?_eq_none_iff.mpr h, Option.none_or]

theorem Event.nominee_of_quiet {ev : Event} (h : ev.quiet = true) : ev.nominee = none := by
  cases ev with
  | nominated => exact absurd h Bool.false_ne_true
  | _ => rfl

theorem Nominal.mono (h : s.Nominal) (hs : s.state = .connected ∧ t.state = .connected ∨
    s.state ≠ .connected ∧ t.state ≠ .connected) (hn : t.nominated = s.nominated) (he : t.nominee = s.nominee)
    (hp : ∀ i p, s.nominated = some i → s.pairs[i]? = some p → p.state = .succeeded →
      ∃ q, t.pairs[i]? = some q ∧ q.state = .succeeded ∧ q.ends = p.ends)
    (hc : .consent ∈ s.timers → .consent ∈ t.timers) : t.Nominal := by
  rcases h with ⟨h1, h2⟩ | ⟨h1, i, p, h2, h3, h4, h5, h6⟩
  · exact .inl ⟨hn.trans h1, (hs.resolve_left (fun h => h2 h.1)).2⟩
  · obtain ⟨q, hq, hst, hends⟩ := hp i p h2 h3 h4
    exact .inr ⟨(hs.resolve_right (fun h => h.1 h1)).2, i, q, hn.trans h2, hq, hst,
      by rw [he, h5, hends], hc h6⟩

theorem Nominal.frame (h : s.Nominal) (hf : Frame s t) : t.Nominal := by
  obtain ⟨evs, hl, hq⟩ := hf.log
  refine h.mono ?_ hf.nominated (nominee_of_log hl (fun ev hev => Event.nominee_of_quiet (hq ev hev))) ?_ hf.consent
  · rcases hf.state with h | ⟨h | h, h' | h'⟩ <;> rw [h] <;> try rw [h']
    · exact or_not.imp (fun h => ⟨h, h⟩) (fun h => ⟨h, h⟩)
    all_goals exact .inr ⟨by decide, by decide⟩
  · intro i p _ hp hst
    exact ⟨p, hf.pairs ▸ hp, hst, rfl⟩

theorem nominee_setState (st : AgentState) (s : Agent) : (s.setState st).nominee = s.nominee := by
  unfold Agent.setState
  by_cases h : s.state = st
  · rw [if_pos h]
    rfl
  · rw [if_neg h]
    rfl

theorem Nominal.nominate {o : Nominator} {p : Pair} (hp : s.pairs[i]? = some p)
    (hq : t.pairs[i]? = some { p with state := .succeeded, nominated := true })
    (hn : t.nominated = some i) (he : t.nominee = (s.nominate i o).nominee)
    (hs : t.state = .connected) (hc : .consent ∈ t.timers) : t.Nominal := by
  refine .inr ⟨hs, i, _, hn, hq, rfl, ?_, hc⟩
  rw [he]
  show some ((s.pairs[i]?.map Pair.ends).getD (0, 0)) = _
  rw [hp]
  rfl

theorem Nominal.sendCheck (h : s.Nominal) (hi : s.nominated ≠ some i) : (s.sendCheck e i).Nominal := by
  obtain ⟨evs, hl, hev⟩ := sendCheck_events e i s
  refine h.mono ?_ (sendCheck_nominated e i s) (nominee_of_log hl ?_) ?_ ?_
  · rw [sendCheck_state]
    exact or_not.imp (fun h => ⟨h, h⟩) (fun h => ⟨h, h⟩)
  · intro ev hmem
    rcases hev ev hmem with ⟨_, _, rfl⟩ | ⟨_, _, _, _, rfl⟩ | ⟨_, _, _, rfl⟩
    · rfl
    · rfl
    · rfl
  · intro j p hj hp hst
    refine ⟨p, ?_, hst, rfl⟩
    rw [sendCheck_pairs, List.getElem?_modify_ne _ _ (fun hij => hi (by rw [hij, hj])), hp]
  · rw [sendCheck_timers]
    exact id

theorem Nominal.eq_none (h : s.Nominal) (hs : s.state ≠ .connected) : s.nominated = none := by
  rcases h with ⟨hn, -⟩ | ⟨hc, -⟩
  · exact hn
  · exact absurd hc hs

theorem Nominal.spray (h : s.Nominal) (hs : s.state = .checking) : (s.startAggressiveSpray e).Nominal := by
  have hn : s.nominated = none := h.eq_none (by rw [hs]; decide)
  rcases startAggressiveSpray_cases e s with ⟨ha, -⟩ | ⟨new, t, ha, hf⟩
  · exact .inl ⟨ha.nominated.trans hn, by rw [ha.state, hs]; decide⟩
  · refine Nominal.frame (s := t.emit (.sprayed new.length)) (.inl ⟨ha.nominated.trans hn, ?_⟩) hf.frame
    show t.state ≠ .connected
    rw [ha.state, hs]
    decide

theorem Nominal.tryNominate (h : s.Nominal) : (s.tryNominate e).Nominal := by
  rcases tryNominate_cases e s with ⟨h1, -⟩ | ⟨hs, hn, ⟨i, p, hp, hst, hf⟩ | ⟨-, -, ⟨-, -, h1⟩ | h1⟩⟩
  · rw [h1]
    exact h
  · refine Nominal.frame (Nominal.nominate (o := .tryNominate) hp ?_ rfl ?_ rfl mem_cons_self) hf.frame
    · show (s.pairs.modify i _)[i]? = _
      rw [List.getElem?_modify_eq, hp, ← hst]
      rfl
    · exact nominee_setState _ _
  · rw [h1]
    exact h.spray hs
  · rw [h1]
    refine .inl ⟨hn, ?_⟩
    show AgentState.failed ≠ .connected
    decide

theorem Nominal.result {msg : Option StunMsg} (h : s.Nominal)
    (hlog : ∀ ev ∈ (s.onCheckResponse e msg i).log, ev.keepsNomination = true) :
    (s.onCheckResponse e msg i).Nominal := by
  have hmem : .result i (checkResult msg) (s.nominated = some i) ∈ (s.onCheckResponse e msg i).log :=
    (onCheckResponse_log e msg i s).subset mem_cons_self
  have hev : s.nominated ≠ some i ∨ checkResult msg = .success := by
    simpa [Event.keepsNomination] using hlog _ hmem
  have hset : ∀ (st : PairState) (t : Agent), (st = .succeeded ∨ s.nominated ≠ some i) →
      t.nominated = s.nominated → t.state = s.state → t.nominee = s.nominee → t.timers = s.timers →
      t.pairs = s.pairs.modify i (fun p => { p with state := st }) → t.Nominal := by
    intro st t hst h1 h2 h3 h4 h5
    refine h.mono ?_ h1 h3 ?_ (fun h => h4 ▸ h)
    · rw [h2]
      exact or_not.imp (fun h => ⟨h, h⟩) (fun h => ⟨h, h⟩)
    · intro j p hj hp hsucc
      by_cases hij : i = j
      · subst hij
        refine ⟨{ p with state := st }, ?_, hst.resolve_right (fun hne => hne hj), rfl⟩
        rw [h5, List.getElem?_modify_eq, hp]
        rfl
      · exact ⟨p, by rw [h5, List.getElem?_modify_ne _ _ hij, hp], hsucc, rfl⟩
  unfold Agent.onCheckResponse
  cases hr : checkResult msg with
  | success =>
    refine Nominal.tryNominate ?_
    exact hset .succeeded _ (.inl rfl) rfl rfl rfl rfl rfl
  | failure =>
    rw [hr] at hev
    refine Nominal.tryNominate ?_
    exact hset .failed _ (.inr (hev.resolve_right (by decide))) rfl rfl rfl rfl rfl
  | conflict =>
    rw [hr] at hev
    have hne := hev.resolve_right (by decide)
    refine Nominal.sendCheck ?_ hne
    exact hset .waiting _ (.inr hne) rfl rfl rfl rfl rfl

theorem Nominal.restart (hn : s.nominated = none) : (s.restart sort).Nominal := by
  obtain ⟨-, -, h1, h2⟩ := restart_spec sort s
  refine .inl ⟨h1.trans hn, ?_⟩
  rw [h2]
  split_ifs <;> decide

theorem Nominal.nominateByPeer {src : Addr} (h : s.Nominal) : (s.nominateByPeer src).Nominal := by
  unfold Agent.nominateByPeer
  cases hi : s.pairs.findIdx? _ with
  | none => exact h
  | some i =>
    have hp := List.getElem?_eq_getElem (List.findIdx?_eq_some_iff_getElem.mp hi).1
    refine Nominal.nominate (o := .peer) hp ?_ rfl (nominee_setState _ _) rfl mem_cons_self
    show ((s.pairs.modify i _).modify i _)[i]? = _
    rw [List.getElem?_modify_eq, List.getElem?_modify_eq, hp]
    rfl

theorem Nominal.emit {ev : Event} (h : s.Nominal) (hev : ev.nominee = none) : (s.emit ev).Nominal := by
  refine h.mono (or_not.imp (fun h => ⟨h, h⟩) (fun h => ⟨h, h⟩)) rfl ?_ (fun i p _ hp hst => ⟨p, hp, hst, rfl⟩) id
  exact nominee_of_log (l := [ev]) rfl (by simpa using hev)

theorem Nominal.consentCb (h : s.Nominal) : ({ s with timers := s.timers.erase .consent }.consentCb e).Nominal := by
  rcases h with ⟨hn, hs⟩ | ⟨hs, i, p, h1, h2, h3, h4, h5⟩
  · rcases consentCb_cases e { s with timers := s.timers.erase .consent } with ⟨h, -⟩ | ⟨ev, h, -⟩
    all_goals
      rw [h]
      exact .inl ⟨hn, hs⟩
  · rcases consentCb_cases e { s with timers := s.timers.erase .consent } with ⟨-, h⟩ | ⟨ev, h, hev⟩
    · have hbind : s.nominated.bind (s.pairs[·]?) = none := h hs
      rw [h1, Option.bind_some, h2] at hbind
      exact absurd hbind (by simp)
    · rw [h]
      refine .inr ⟨hs, i, p, h1, h2, h3, ?_, mem_cons_self⟩
      have hq : ev.nominee = none := by
        rcases hev with rfl | ⟨_, _, rfl⟩ | ⟨_, _, _, rfl⟩
        · rfl
        · rfl
        · rfl
      rw [← h4]
      exact nominee_of_log (l := [ev]) rfl (by simpa using hq)

variable {ans : Sock → Addr → Bytes → Bool → Prop} {suc : Bytes → Prop}

/-- **What an act that keeps the nomination keeps.** -/
theorem Nominal.act (h : s.Nominal) (ha : Act Frame sort e ans suc s t)
    (hlog : ∀ ev ∈ t.log, ev.keepsNomination = true) : t.Nominal := by
  cases ha with
  | frame hf => exact h.frame hf
  | send i hs => exact h.sendCheck (by rw [h.eq_none (by rw [hs]; decide)]; simp)
  | again | respond | useCandidate => exact h.emit rfl
  | result c mgr msg hm => exact Nominal.result (s := { s with txnMgr := mgr }) h hlog
  | tryNominate => exact h.tryNominate
  | timeoutNominate i p hs hn hp =>
    have hmem := (setState_log .connected (s.nominate i .checkTimeout)).subset mem_cons_self
    exact absurd (hlog _ hmem) Bool.false_ne_true
  | spray hs => exact h.spray hs
  | fail hs =>
    refine .inl ⟨h.eq_none (by rw [hs]; decide), ?_⟩
    show AgentState.failed ≠ .connected
    decide
  | restart =>
    have := hlog _ ((restart_log sort s).subset mem_cons_self)
    exact Nominal.restart (by simpa [Event.keepsNomination] using this)
  | restartFailed => exact Nominal.restart rfl
  | addPairs ok r hs =>
    have hn := h.eq_none (by rw [hs]; decide)
    refine .inl ⟨hn, ?_⟩
    show s.state ≠ .connected
    rw [hs]
    decide
  | peer sock src => exact h.nominateByPeer
  | consent => exact h.consentCb

/-- **A run of which every event keeps the nomination ends in a settled state.** -/
theorem settled_of_run {hmac : Bytes → Bytes → Bytes} {conf : Conf} {ufrag pwd : Bytes}
    (h : Run (step sort hmac) (fun _ _ => True) (create conf ufrag pwd) s)
    (hlog : ∀ ev ∈ s.log, ev.keepsNomination = true) : s.Settled :=
  Nominal.settled (run_preserves_while (fun _ _ _ _ _ hi ha hl => Nominal.act hi ha hl) h
    (.inl ⟨rfl, by show AgentState.new ≠ .connected; decide⟩) hlog)

/-- The only pair answers, and the agent is connected. -/
def lanConnect : List (Env × Input) :=
  [.setRemoteDescription (lanPeer [2]), .gather (some [lanIface]), .timer .check,
    .recv 0 (lanAddr 2) (lanAnswer 1 5)].map (lan, ·)

theorem settled_of_run_lan :
    ∃ s, Run lanStep (fun _ _ => True) (lanAgent .controlling) s ∧ s.state = .connected ∧ s.Settled := by
  obtain ⟨s, hs, hp⟩ := lanRun (p := fun s => s.state = .connected && s.log.all Event.keepsNomination)
    (show Core.replay lanStep _ _ (lanAgent .controlling) lanConnect = true by decide +kernel)
  rw [Bool.and_eq_true, decide_eq_true_eq, all_eq_true] at hp
  exact ⟨s, hs, hp.1, settled_of_run hs hp.2⟩

/-- A candidate comes after the paced checks, and its pair alone answers. -/
def lanTrickle : List (Env × Input) :=
  [.setRemoteDescription (lanPeer [2]), .gather (some [lanIface]), .timer .check, .timer .check,
    .addRemoteCandidate (lanCandidate 3), .recv 0 (lanAddr 3) (lanAnswer 1 7), .timer .checkTimeout].map (lan, ·)

/-- The check timeout connects the agent without a consent timer. -/
theorem not_settled_lan :
    ∃ s, Run lanStep (fun _ _ => True) (lanAgent .controlling) s ∧ ¬ s.Settled := by
  obtain ⟨s, hs, hp⟩ := lanRun (p := fun s => s.state = .connected && !s.timers.contains .consent)
    (show Core.replay lanStep _ _ (lanAgent .controlling) lanTrickle = true by decide +kernel)
  rw [Bool.and_eq_true, decide_eq_true_eq, Bool.not_eq_true', contains_eq_mem, decide_eq_false_iff_not] at hp
  refine ⟨s, hs, fun h => ?_⟩
  obtain ⟨_, _, _, _, _, _, hc⟩ := h.connected hp.1
  exact hp.2 hc

end Agent

end Libx.Ice
