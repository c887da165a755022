import Libx.Ice.Outcome

/-!
# Libx.Ice.Credit — a check is credited to the pair it was sent on

A check points to a place in the list of pairs.  Pairs are added at the end and change their state in
place; only `generate_pairs` moves them, also under the checks that are out.
-/

namespace Libx.Ice

open Libx.Agent (Bytes)
open Libx.Core (Run)
open List

/-- The event moves no pair that an uncompleted check points to, and no context is used that was freed. -/
def Event.keepsChecks : Event → Bool
  | .generated old new outstanding _ => outstanding.all (fun i => old[i]?.map Pair.ends = new[i]?.map Pair.ends)
  | .lateResult => false
  | _ => true

namespace Agent

variable {sort : PairSort} {e : Env} {s t u : Agent} {i : ℕ}

/-! ### The candidates of the pairs -/

def ends (s : Agent) : List (ℕ × ℕ) := s.pairs.map Pair.ends

def shape (s : Agent) : List ((ℕ × ℕ) × PairState) := s.pairs.map (fun p => (p.ends, p.state))

theorem ends_eq (s : Agent) : s.ends = s.shape.map Prod.fst := by
  unfold Agent.ends Agent.shape
  rw [map_map]
  rfl

theorem map_modify {α : Type} (g : Pair → α) (ps : List Pair) (i : ℕ) (f : Pair → Pair)
    (hf : ∀ p, g (f p) = g p) : (ps.modify i f).map g = ps.map g := by
  apply ext_getElem?
  intro j
  rw [List.getElem?_map, List.getElem?_map, List.getElem?_modify]
  cases ps[j]? with
  | none => rfl
  | some p =>
    show some (g (if i = j then f p else p)) = some (g p)
    split_ifs
    · rw [hf]
    · rfl

theorem ends_setPair (i : ℕ) (st : PairState) (s : Agent) : (s.setPair i st).ends = s.ends := by
  show (s.pairs.modify i _).map Pair.ends = s.pairs.map Pair.ends
  exact map_modify Pair.ends _ _ _ (fun _ => rfl)

theorem shape_nominate (i : ℕ) (o : Nominator) (s : Agent) : (s.nominate i o).shape = s.shape := by
  show (s.pairs.modify i _).map _ = s.pairs.map _
  exact map_modify _ _ _ _ (fun _ => rfl)

theorem ends_nominate (i : ℕ) (o : Nominator) (s : Agent) : (s.nominate i o).ends = s.ends := by
  rw [ends_eq, shape_nominate, ends_eq]

theorem ends_sendCheck (e : Env) (i : ℕ) (s : Agent) : (s.sendCheck e i).ends = s.ends := by
  unfold Agent.ends
  rw [sendCheck_pairs]
  exact ends_setPair i .inProgress s

theorem Frame.shape (h : Frame s t) : t.shape = s.shape := by
  unfold Agent.shape
  rw [h.pairs]

theorem Added.shape {new : List Pair} (h : Added new s t) : s.shape <+: t.shape := by
  unfold Agent.shape
  rw [h.pairs, map_append]
  exact prefix_append _ _

theorem ends_of_shape (h : s.shape <+: t.shape) : s.ends <+: t.ends := by
  rw [ends_eq, ends_eq]
  exact h.map Prod.fst

theorem startAggressiveSpray_shape (e : Env) (s : Agent) : s.shape <+: (s.startAggressiveSpray e).shape := by
  rcases startAggressiveSpray_cases e s with ⟨h, -⟩ | ⟨new, t, h, hf⟩
  · exact h.shape
  · rw [hf.frame.shape]
    exact h.shape

theorem tryNominate_shape (e : Env) (s : Agent) : s.shape <+: (s.tryNominate e).shape := by
  rcases tryNominate_cases e s with ⟨h, -⟩ | ⟨-, -, ⟨i, p, -, -, hf⟩ | ⟨-, -, ⟨-, -, h⟩ | h⟩⟩
  · rw [h]
  · rw [hf.frame.shape]
    exact (shape_nominate i .tryNominate s).symm ▸ prefix_refl _
  · rw [h]
    exact startAggressiveSpray_shape e s
  · rw [h]
    exact prefix_refl _

/-! ### The uncompleted checks -/

theorem mem_checks_sendCheck {c : Check} (h : c ∈ (s.sendCheck e i).checks) :
    c ∈ s.checks ∨ ∃ p, s.pairs[i]? = some p ∧ c = s.checkOf e i p := by
  cases hp : s.pairs[i]? with
  | none =>
    unfold Agent.sendCheck at h
    rw [hp] at h
    exact .inl h
  | some p =>
    obtain ⟨registered, -, hc⟩ := sendCheck_checks hp e
    rw [hc] at h
    refine (mem_append.mp h).imp_right (fun h => ⟨p, rfl, ?_⟩)
    split_ifs at h
    · exact mem_singleton.mp h
    · exact absurd h not_mem_nil

theorem startAggressiveSpray_checks (e : Env) (s : Agent) : (s.startAggressiveSpray e).checks.Perm s.checks := by
  rcases startAggressiveSpray_cases e s with ⟨h, -⟩ | ⟨new, t, h, hf⟩
  · unfold Agent.checks
    rw [h.txnMgr]
  · refine hf.frame.checks.trans ?_
    show (checksOf t.txnMgr).Perm (checksOf s.txnMgr)
    rw [h.txnMgr]

theorem tryNominate_checks (e : Env) (s : Agent) : (s.tryNominate e).checks.Perm s.checks := by
  rcases tryNominate_cases e s with ⟨h, -⟩ | ⟨-, -, ⟨i, p, -, -, hf⟩ | ⟨-, -, ⟨-, -, h⟩ | h⟩⟩
  · rw [h]
  · exact hf.frame.checks
  · rw [h]
    exact startAggressiveSpray_checks e s
  · rw [h]
    exact .refl _

/-! ### Every check in its place -/

/-- Every uncompleted check points to a pair of its candidates. -/
def Placed (s : Agent) : Prop := ∀ c ∈ s.checks, s.ends[c.pair]? = some c.ends

theorem Placed.mono (h : s.Placed) (hc : t.checks ⊆ s.checks) (he : s.ends <+: t.ends) : t.Placed := by
  intro c hmem
  have hold := h c (hc hmem)
  obtain ⟨rest, hr⟩ := he
  rw [← hr, List.getElem?_append_left (List.getElem?_eq_some_iff.mp hold).1]
  exact hold

theorem Placed.sendCheck (h : s.Placed) : (s.sendCheck e i).Placed := by
  intro c hmem
  rw [ends_sendCheck]
  rcases mem_checks_sendCheck hmem with hc | ⟨p, hp, rfl⟩
  · exact h c hc
  · unfold Agent.ends
    rw [List.getElem?_map]
    show (s.pairs[i]?).map Pair.ends = some p.ends
    rw [hp]
    rfl

theorem Placed.result {c : Check} {mgr : TxnMgr Ctx Request} {msg : Option StunMsg} (h : s.Placed)
    (hm : (c :: checksOf mgr).Perm s.checks) :
    ({ s with txnMgr := mgr }.onCheckResponse e msg c.pair).Placed := by
  have h0 : ∀ st (t : Agent), t.pairs = s.pairs.modify c.pair (fun p => { p with state := st }) → t.txnMgr = mgr → t.Placed := by
    intro st t hp ht
    refine h.mono (fun d hd => hm.subset (mem_cons_of_mem c ?_)) ?_
    · show d ∈ checksOf mgr
      unfold Agent.checks at hd
      rw [ht] at hd
      exact hd
    · have hset : t.ends = s.ends := by
        unfold Agent.ends
        rw [hp]
        exact ends_setPair c.pair st s
      exact hset ▸ prefix_refl _
  unfold Agent.onCheckResponse
  cases checkResult msg with
  | success =>
    refine Placed.mono ?_ (tryNominate_checks e _).subset (ends_of_shape (tryNominate_shape e _))
    exact h0 .succeeded _ rfl rfl
  | failure =>
    refine Placed.mono ?_ (tryNominate_checks e _).subset (ends_of_shape (tryNominate_shape e _))
    exact h0 .failed _ rfl rfl
  | conflict => exact (h0 .waiting _ rfl rfl).sendCheck

theorem Placed.restart (h : s.Placed)
    (hk : (Event.generated s.pairs (sort.sort s.allPairs) s.outstanding s.nominated).keepsChecks = true) :
    (s.restart sort).Placed := by
  obtain ⟨hpairs, hchecks, -, -⟩ := restart_spec sort s
  intro c hc
  rw [hchecks] at hc
  have hkeep := all_eq_true.mp hk c.pair (mem_map_of_mem hc)
  have hold := h c hc
  unfold Agent.ends at hold ⊢
  rw [List.getElem?_map] at hold ⊢
  rw [hpairs, ← of_decide_eq_true hkeep, hold]

variable {ans : Sock → Addr → Bytes → Bool → Prop} {suc : Bytes → Prop}

/-- **What an act that keeps the checks keeps.** -/
theorem Placed.act (h : s.Placed) (ha : Act Frame sort e ans suc s t) (hlog : ∀ ev ∈ t.log, ev.keepsChecks = true) :
    t.Placed := by
  cases ha with
  | frame hf => exact h.mono hf.checks.subset (ends_of_shape (hf.shape ▸ prefix_refl _))
  | send i => exact h.sendCheck
  | result c mgr msg hm => exact h.result hm
  | tryNominate => exact h.mono (tryNominate_checks e s).subset (ends_of_shape (tryNominate_shape e s))
  | timeoutNominate i => exact h.mono (List.Subset.refl _) ((ends_nominate i .checkTimeout s).symm ▸ prefix_refl _)
  | spray => exact h.mono (startAggressiveSpray_checks e s).subset (ends_of_shape (startAggressiveSpray_shape e s))
  | restart => exact h.restart (hlog _ ((restart_log sort s).subset mem_cons_self))
  | restartFailed =>
    exact Placed.restart (s := { s with nominated := none }) h
      (hlog _ ((restart_log sort { s with nominated := none }).subset mem_cons_self))
  | addPairs ok r =>
    obtain ⟨new, hadd⟩ := addPairs_added ok r s
    exact h.mono (List.Subset.refl _) (ends_of_shape hadd.shape)
  | peer sock src =>
    unfold Agent.nominateByPeer
    cases hi : s.pairs.findIdx? _ with
    | none => exact h
    | some i =>
      refine h.mono (List.Subset.refl _) ?_
      show s.ends <+: ((s.nominate i .peer).setPair i .succeeded).ends
      rw [ends_setPair, ends_nominate]
  | consent =>
    rcases consentCb_cases e { s with timers := s.timers.erase .consent } with ⟨h1, -⟩ | ⟨ev, h1, -⟩
    · rw [h1]
      exact h
    · rw [h1]
      exact h
  | _ => exact h

/-! ### Credit -/

/-- From `s` to `t` no pair goes, and of those of `s` only the pairs of the candidates `ends` change their
state. -/
def Touches (ends : ℕ × ℕ) (s t : Agent) : Prop :=
  ∀ (i : ℕ) (p : Pair), s.pairs[i]? = some p →
    ∃ q, t.pairs[i]? = some q ∧ q.ends = p.ends ∧ (q.state = p.state ∨ p.ends = ends)

/-- Whatever comes back for an uncompleted check changes the state of pairs of its candidates only. -/
def Credits (s : Agent) : Prop :=
  ∀ c ∈ s.checks, ∀ (e : Env) (msg : Option StunMsg) (mgr : TxnMgr Ctx Request),
    Touches c.ends s ({ s with txnMgr := mgr }.onCheckResponse e msg c.pair)

def pairStateOf : CheckResult → PairState
  | .success => .succeeded
  | .conflict => .inProgress
  | .failure => .failed

theorem onCheckResponse_shape (e : Env) (msg : Option StunMsg) (i : ℕ) (s : Agent) :
    (s.setPair i (pairStateOf (checkResult msg))).shape <+: (s.onCheckResponse e msg i).shape := by
  unfold Agent.onCheckResponse
  cases checkResult msg with
  | success => exact tryNominate_shape e ((s.emit _).setPair i .succeeded)
  | failure => exact tryNominate_shape e ((s.emit _).setPair i .failed)
  | conflict =>
    have hpairs : (((s.emit (.result i .conflict (s.nominated = some i))).switchRole.setPair i .waiting).sendCheck
        e i).pairs = (s.setPair i .inProgress).pairs := by
      rw [sendCheck_pairs]
      show (s.pairs.modify i _).modify i _ = s.pairs.modify i _
      rw [modify_modify_eq]
      rfl
    unfold Agent.shape
    rw [hpairs]
    exact prefix_refl _

theorem getElem?_of_setPair {st : PairState} {j : ℕ} {p : Pair} (h : (s.setPair i st).shape <+: t.shape)
    (hp : s.pairs[j]? = some p) :
    ∃ q, t.pairs[j]? = some q ∧ q.ends = p.ends ∧ q.state = if i = j then st else p.state := by
  obtain ⟨rest, hr⟩ := h
  have hj : (s.setPair i st).shape[j]? = some (p.ends, if i = j then st else p.state) := by
    unfold Agent.shape Agent.setPair
    rw [List.getElem?_map, List.getElem?_modify, hp]
    show some (Pair.ends (if i = j then _ else p), Pair.state (if i = j then _ else p)) = _
    split_ifs
    · rfl
    · rfl
  have ht : t.shape[j]? = some (p.ends, if i = j then st else p.state) := by
    rw [← hr, List.getElem?_append_left (List.getElem?_eq_some_iff.mp hj).1, hj]
  unfold Agent.shape at ht
  rw [List.getElem?_map, Option.map_eq_some_iff] at ht
  obtain ⟨q, hq, heq⟩ := ht
  rw [Prod.mk.injEq] at heq
  exact ⟨q, hq, heq⟩

theorem credits_iff : s.Credits ↔ ∀ c ∈ s.checks, ∀ p, s.pairs[c.pair]? = some p → p.ends = c.ends := by
  constructor
  · intro h c hc p hp
    -- a pair that has not failed sees a timeout, one that has failed a success
    let msg : Option StunMsg := if p.state = .failed then some ⟨0x0101, [], []⟩ else none
    have hne : pairStateOf (checkResult msg) ≠ p.state := by
      by_cases hf : p.state = .failed
      · have : pairStateOf (checkResult msg) = .succeeded := by
          show pairStateOf (checkResult (if p.state = .failed then _ else none)) = _
          rw [if_pos hf]
          rfl
        rw [this, hf]
        decide
      · have : pairStateOf (checkResult msg) = .failed := by
          show pairStateOf (checkResult (if p.state = .failed then _ else none)) = _
          rw [if_neg hf]
          rfl
        rw [this]
        exact fun h => hf h.symm
    obtain ⟨q, hq, -, hst⟩ := h c hc lan msg s.txnMgr c.pair p hp
    obtain ⟨q', hq', -, hst'⟩ := getElem?_of_setPair (onCheckResponse_shape lan msg c.pair s) hp
    rw [if_pos rfl] at hst'
    have hqq : q = q' := Option.some.inj (hq.symm.trans hq')
    rw [hqq, hst'] at hst
    exact hst.resolve_left hne
  · intro h c hc e msg mgr j p hp
    obtain ⟨q, hq, hends, hst⟩ :=
      getElem?_of_setPair (onCheckResponse_shape e msg c.pair { s with txnMgr := mgr }) hp
    refine ⟨q, hq, hends, ?_⟩
    by_cases hj : c.pair = j
    · exact .inr (h c hc p (hj ▸ hp))
    · rw [if_neg hj] at hst
      exact .inl hst

theorem Placed.credits (h : s.Placed) : s.Credits := by
  refine credits_iff.mpr (fun c hc p hp => ?_)
  have hends := h c hc
  unfold Agent.ends at hends
  rw [List.getElem?_map, hp] at hends
  exact Option.some.inj hends

/-- **A run of which every event keeps the checks credits each to the pair it was sent on.** -/
theorem credits_of_run {hmac : Bytes → Bytes → Bytes} {conf : Conf} {ufrag pwd : Bytes}
    (h : Run (step sort hmac) (fun _ _ => True) (create conf ufrag pwd) s)
    (hlog : ∀ ev ∈ s.log, ev.keepsChecks = true) : s.Credits := by
  refine Placed.credits (run_preserves_while (fun _ _ _ _ _ hi ha hl => Placed.act hi ha hl) h ?_ hlog)
  intro c hc
  exact absurd hc not_mem_nil

/-- The agent fails with a check out, and a candidate of the priority `k` restarts it. -/
def lanRestart (k : ℕ) : List (Env × Input) :=
  [.setRemoteDescription (lanPeer [2]), .gather (some [lanIface]), .timer .check, .timer .checkTimeout,
    .addRemoteCandidate (lanCandidate k)].map (lan, ·)

/-- The new pair comes behind the old one, whose check stays its own. -/
theorem credits_of_run_lan :
    ∃ s, Run lanStep (fun _ _ => True) (lanAgent .controlling) s ∧ s.outstanding = [0] ∧ s.Credits := by
  obtain ⟨s, hs, hp⟩ := lanRun (p := fun s => s.outstanding = [0] && s.log.all Event.keepsChecks)
    (show Core.replay lanStep _ _ (lanAgent .controlling) (lanRestart 3) = true by decide +kernel)
  rw [Bool.and_eq_true, decide_eq_true_eq, all_eq_true] at hp
  exact ⟨s, hs, hp.1, credits_of_run hs hp.2⟩

/-- A check points to a pair of other candidates. -/
def misplaced (s : Agent) : Bool := s.checks.any (fun c => (s.pairs[c.pair]?).any (fun p => p.ends ≠ c.ends))

theorem not_credits_of_misplaced (h : s.misplaced = true) : ¬ s.Credits := by
  intro hcr
  unfold Agent.misplaced at h
  rw [any_eq_true] at h
  obtain ⟨c, hc, h⟩ := h
  rw [Option.any_eq_true] at h
  obtain ⟨p, hp, h⟩ := h
  exact of_decide_eq_true h (credits_iff.mp hcr c hc p hp)

/-- The new pair takes the place of the old one, and the old one's check. -/
theorem not_credits_lan :
    ∃ s, Run lanStep (fun _ _ => True) (lanAgent .controlling) s ∧ ¬ s.Credits := by
  obtain ⟨s, hs, hp⟩ := lanRun (p := misplaced)
    (show Core.replay lanStep _ _ (lanAgent .controlling) (lanRestart 0) = true by decide +kernel)
  exact ⟨s, hs, not_credits_of_misplaced hp⟩

end Agent

end Libx.Ice
