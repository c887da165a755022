import Libx.Ice.Outcome
import Libx.Ice.Unasked

/-!
# Libx.Ice.Srflx — server-reflexive candidates come from answers

What the STUN servers answer for a host is counted, and with the last answer the host's candidates are made.
-/

namespace Libx.Ice

open Libx.Agent (Bytes)
open Libx.Core (Run)
open List Function Option

namespace Agent

variable {sort : PairSort} {e : Env} {s t u : Agent} {hi si : ℕ}

/-! ### What is finalized -/

/-- The places of a host below `srflx_expected` that hold a port: the first is `first_si`, the last `last_si`. -/
def srflxSlots (s : Agent) (hi : ℕ) : List ℕ :=
  (List.range (s.srflxExpected hi)).filter (fun si => (s.srflxMapped hi si).isSome)

/-- `per_dest_delta` for the first and the last server that has answered, each with its answer. -/
def perDestDelta (first last : ℕ × Addr) : ℕ :=
  let delta := last.2.port - first.2.port
  let perDest := delta / (last.1 - first.1)
  if perDest = 0 then delta else perDest

/-- The address `last` with one of `count` predicted ports: the ports of two answers are a little apart, and go on
so. -/
structure Predicted (count : ℕ) (first last : ℕ × Addr) (addr : Addr) : Prop where
  servers : first.1 < last.1
  ports : first.2.port < last.2.port ∧ last.2.port ≤ first.2.port + symmetricNatPortThreshold
  port : ∃ k, 1 ≤ k ∧ k ≤ count ∧ last.2.port + k * perDestDelta first last ≤ 65535 ∧
    addr = last.2.setPort (last.2.port + k * perDestDelta first last)

theorem srflxSlots_le {first last : ℕ} (hf : (s.srflxSlots hi).head? = some first)
    (hl : (s.srflxSlots hi).getLast? = some last) : first ≤ last := by
  have hsorted : (s.srflxSlots hi).Pairwise (· < ·) := pairwise_lt_range.filter _
  obtain ⟨rest, hrest⟩ := List.head?_eq_some_iff.mp hf
  rw [hrest] at hl hsorted
  rcases mem_cons.mp (mem_of_getLast? hl) with rfl | hmem
  · exact le_refl _
  · exact (rel_of_pairwise_cons hsorted hmem).le

theorem mapped_of_mem_srflxSlots (h : si ∈ s.srflxSlots hi) : ∃ a, s.srflxMapped hi si = some a :=
  isSome_iff_exists.mp (mem_filter.mp h).2

/-! ### The candidates of a host -/

/-- Candidates are added, all with addresses as `p` says. -/
def Makes (p : Addr → Prop) (s t : Agent) : Prop :=
  ∃ cs, t.localCandidates = s.localCandidates ++ cs ∧ ∀ c ∈ cs, p c.addr

variable {p : Addr → Prop}

theorem Makes.of_eq (h : t.localCandidates = s.localCandidates) : Makes p s t :=
  ⟨[], by rw [h, List.append_nil], by simp⟩

theorem Makes.trans (h₁ : Makes p s t) (h₂ : Makes p t u) : Makes p s u := by
  obtain ⟨cs, hcs, hp⟩ := h₁
  obtain ⟨ds, hds, hq⟩ := h₂
  refine ⟨cs ++ ds, by rw [hds, hcs, append_assoc], fun c hc => ?_⟩
  rcases mem_append.mp hc with h | h
  · exact hp c h
  · exact hq c h

theorem addLocal_localCandidates (c : Candidate) (s : Agent) :
    (s.addLocal c).localCandidates = s.localCandidates ++ [c] := by
  unfold Agent.addLocal
  dsimp only
  split_ifs
  · rfl
  · rfl

theorem makes_createSrflxCandidate {a : Addr} (pref : ℕ) (s : Agent) (h : p a) :
    Makes p s (s.createSrflxCandidate hi a pref) := by
  unfold Agent.createSrflxCandidate
  split_ifs
  · exact .of_eq rfl
  · refine ⟨_, addLocal_localCandidates _ s, fun c hc => ?_⟩
    rw [mem_singleton.mp hc]
    exact h

theorem makes_predictLoop {a : Addr} {delta : ℕ} : ∀ (n k : ℕ) (s : Agent),
    (∀ j, k ≤ j → j < k + n → a.port + j * delta ≤ 65535 → p (a.setPort (a.port + j * delta))) →
    Makes p s (s.predictLoop hi a delta n k)
  | 0, _, s, _ => .of_eq rfl
  | n + 1, k, s, h => by
    unfold Agent.predictLoop
    dsimp only
    split_ifs with hport hfull
    · exact .of_eq rfl
    · exact .of_eq rfl
    · have hhere : Makes p s
          (s.createSrflxCandidate hi (a.setPort (a.port + k * delta)) (65535 - hi - k * s.hostCount)) :=
        makes_createSrflxCandidate _ s (h k (le_refl k) (by omega) (by omega))
      exact hhere.trans (makes_predictLoop n (k + 1) _ (fun j hk hj hle => h j (by omega) (by omega) hle))

theorem finalizeSrflxForHost_eq {first last : ℕ} {a b : Addr} (e : Env) (s : Agent)
    (hf : (s.srflxSlots hi).head? = some first) (hl : (s.srflxSlots hi).getLast? = some last)
    (ha : s.srflxMapped hi first = some a) (hb : s.srflxMapped hi last = some b) :
    s.finalizeSrflxForHost e hi =
      let s' := (s.emit (.gathered s.gatheringDone)).createSrflxCandidate hi b (65535 - hi)
      let delta : ℤ := b.port - a.port
      if first = last then s'
      else if delta = 0 then s'
      else if delta < 0 ∨ (symmetricNatPortThreshold : ℤ) < delta then { s' with localIsSymmetric := true }
      else
        let perDest := delta.toNat / (last - first)
        s'.predictLoop hi b (if perDest = 0 then delta.toNat else perDest) s'.portPredictCount 1 := by
  have hmapped : ((s.emit (.gathered s.gatheringDone)).createSrflxCandidate hi b (65535 - hi)).srflxMapped =
      s.srflxMapped :=
    congrArg Prod.fst ((Unasked.emit _ s).trans (Unasked.createSrflxCandidate hi b (65535 - hi) _)).answers
  unfold Agent.srflxSlots at hf hl
  unfold Agent.finalizeSrflxForHost
  dsimp only [Agent.emit] at hmapped ⊢
  rw [hf, hl, bind_some, hb, getD_some, hmapped]
  dsimp only
  rw [ha, getD_some]

/-- **The candidates of a host** with a place that holds an address: the address of the last such place, and those
with predicted ports. -/
theorem makes_finalizeSrflxForHost {first last : ℕ} {a b : Addr} (e : Env) (s : Agent)
    (hf : (s.srflxSlots hi).head? = some first) (hl : (s.srflxSlots hi).getLast? = some last)
    (ha : s.srflxMapped hi first = some a) (hb : s.srflxMapped hi last = some b) :
    Makes (fun addr => addr = b ∨ Predicted s.portPredictCount (first, a) (last, b) addr) s
      (s.finalizeSrflxForHost e hi) := by
  have hle : first ≤ last := srflxSlots_le hf hl
  have hcount : ((s.emit (.gathered s.gatheringDone)).createSrflxCandidate hi b (65535 - hi)).portPredictCount =
      s.portPredictCount := by
    unfold Agent.createSrflxCandidate Agent.addLocal
    dsimp only
    split_ifs
    · rfl
    · rfl
    · rfl
  have h1 : Makes (fun addr => addr = b ∨ Predicted s.portPredictCount (first, a) (last, b) addr) s
      ((s.emit (.gathered s.gatheringDone)).createSrflxCandidate hi b (65535 - hi)) :=
    Makes.trans (t := s.emit (.gathered s.gatheringDone)) (.of_eq rfl) (makes_createSrflxCandidate _ _ (Or.inl rfl))
  rw [finalizeSrflxForHost_eq e s hf hl ha hb]
  dsimp only
  rw [hcount]
  generalize (s.emit (.gathered s.gatheringDone)).createSrflxCandidate hi b (65535 - hi) = s' at h1 ⊢
  by_cases hone : first = last
  · rw [if_pos hone]
    exact h1
  rw [if_neg hone]
  by_cases hcone : (b.port : ℤ) - a.port = 0
  · rw [if_pos hcone]
    exact h1
  rw [if_neg hcone]
  by_cases hfar : (b.port : ℤ) - a.port < 0 ∨ (symmetricNatPortThreshold : ℤ) < b.port - a.port
  · rw [if_pos hfar]
    exact h1.trans (.of_eq rfl)
  rw [if_neg hfar]
  have hdelta : ((b.port : ℤ) - a.port).toNat = b.port - a.port := by omega
  rw [hdelta]
  refine h1.trans (makes_predictLoop s.portPredictCount 1 s' (fun k hk hlast hport => .inr ?_))
  exact ⟨by dsimp only; omega, by dsimp only; omega, k, hk, by omega, hport, rfl⟩

/-! ### The requests under way -/

def answers (s : Agent) : (ℕ → ℕ → Option Addr) × (ℕ → ℕ) × (ℕ → ℕ) := (s.srflxMapped, s.srflxReceived, s.srflxExpected)

/-- How many requests to STUN servers are under way for a host. -/
def waiting (s : Agent) (hi : ℕ) : ℕ := s.asked.countP (fun q => q.1 = hi)

/-- No host has more answers and requests under way than are expected; before the servers are known there is none. -/
structure Asking (s : Agent) : Prop where
  pending : s.stunDnsPending = s.stunDnsQueries.length
  fresh : s.state = .new → s.stunDnsQueries = []
  unsent : s.state = .new ∨ s.stunDnsQueries ≠ [] → s.asked = [] ∧ ∀ hi, s.srflxReceived hi = 0
  awaited : ∀ hi, s.srflxReceived hi + s.waiting hi ≤ s.srflxExpected hi

theorem Unasked.waiting (h : Unasked s t) (hi : ℕ) : t.waiting hi = s.waiting hi := h.asked.countP_eq _

theorem Unasked.received (h : Unasked s t) : t.srflxReceived = s.srflxReceived :=
  congrArg (fun x => x.2.1) h.answers

theorem Unasked.expected (h : Unasked s t) : t.srflxExpected = s.srflxExpected :=
  congrArg (fun x => x.2.2) h.answers

theorem Unasked.mapped (h : Unasked s t) : t.srflxMapped = s.srflxMapped := congrArg Prod.fst h.answers

theorem Asking.unasked (h : s.Asking) (hu : Unasked s t) : t.Asking := by
  have hq := hu.queries
  simp only [Prod.mk.injEq] at hq
  have hback : t.state = .new → s.state = .new := fun ht => by
    by_contra hs
    exact hu.begun hs ht
  refine ⟨by rw [hq.1, hq.2, h.pending], fun ht => hq.2.trans (h.fresh (hback ht)), fun ht => ?_, fun hi => ?_⟩
  · rw [hq.2] at ht
    obtain ⟨hasked, hzero⟩ := h.unsent (ht.imp_left hback)
    rw [hu.received]
    exact ⟨perm_nil.mp (hasked ▸ hu.asked), hzero⟩
  · rw [hu.received, hu.expected, hu.waiting]
    exact h.awaited hi

/-! ### The requests go out -/

/-- Requests of one host go out. -/
structure Sends (hi : ℕ) (s t : Agent) : Prop where
  mapped : t.srflxMapped = s.srflxMapped
  received : t.srflxReceived = s.srflxReceived
  queries : (t.stunDnsPending, t.stunDnsQueries) = (s.stunDnsPending, s.stunDnsQueries)
  begun : s.state ≠ .new → t.state ≠ .new
  others : ∀ h, h ≠ hi → t.srflxExpected h = s.srflxExpected h ∧ t.waiting h = s.waiting h

theorem Sends.trans (h₁ : Sends hi s t) (h₂ : Sends hi t u) : Sends hi s u :=
  ⟨h₂.mapped.trans h₁.mapped, h₂.received.trans h₁.received, h₂.queries.trans h₁.queries,
    fun h => h₂.begun (h₁.begun h), fun h hne => ⟨(h₂.others h hne).1.trans (h₁.others h hne).1,
      (h₂.others h hne).2.trans (h₁.others h hne).2⟩⟩

theorem Unasked.sends (h : Unasked s t) : Sends hi s t :=
  ⟨h.mapped, h.received, h.queries, h.begun, fun j _ => ⟨congrFun h.expected j, h.waiting j⟩⟩

theorem sends_binding (sort : PairSort) (e : Env) (hi si : ℕ) (a : Addr) (s : Agent) :
    Sends hi s (s.sendStunBindingForHost sort e hi si a) ∧
    (s.sendStunBindingForHost sort e hi si a).waiting hi ≤ s.waiting hi + 1 := by
  unfold Agent.sendStunBindingForHost
  split_ifs
  · dsimp only
    generalize hr : s.txnMgr.sendRaw _ _ = r
    have hasked : ∃ l : List (ℕ × ℕ), l.length ≤ 1 ∧ (∀ q ∈ l, q.1 = hi) ∧
        askedOf (r.getD s.txnMgr) = s.asked ++ l := by
      cases r with
      | none => exact ⟨[], Nat.zero_le _, by simp, (List.append_nil _).symm⟩
      | some mgr =>
        refine ⟨[(hi, si)], le_refl _, by simp, ?_⟩
        rw [getD_some, TxnMgr.sendRaw_eq_some hr, askedOf_concat]
        rfl
    obtain ⟨l, hlen, hl, heq⟩ := hasked
    have hcount : ∀ h, (askedOf (r.getD s.txnMgr)).countP (fun q => q.1 = h) =
        s.waiting h + l.countP (fun q => q.1 = h) := by
      intro h
      rw [heq, countP_append]
      rfl
    refine ⟨⟨rfl, rfl, rfl, id, fun h hne => ⟨rfl, ?_⟩⟩, ?_⟩
    · refine (hcount h).trans ?_
      rw [countP_eq_zero.mpr (fun q hq => by simpa [hl q hq] using hne.symm), Nat.add_zero]
    · refine (hcount hi).le.trans (Nat.add_le_add_left ?_ _)
      exact countP_le_length.trans hlen
  · have hu : Unasked s ((s.emit .noMemory).gatherDone sort) := (Unasked.emit _ s).trans (Unasked.gatherDone sort _)
    exact ⟨hu.sends, (hu.waiting hi).le.trans (Nat.le_succ _)⟩

/-- **The loop over the servers**: no more requests are under way than are expected. -/
theorem sends_bindingLoop : ∀ (l : List (Addr × ℕ)) (sent : ℕ) (s : Agent),
    Sends hi s (s.bindingLoop sort e hi l sent) ∧ (s.waiting hi ≤ sent →
      (s.bindingLoop sort e hi l sent).waiting hi ≤ (s.bindingLoop sort e hi l sent).srflxExpected hi)
  | [], sent, s => by
    refine ⟨⟨rfl, rfl, rfl, id, fun h hne => ⟨update_of_ne hne _ _, rfl⟩⟩, fun hle => ?_⟩
    refine hle.trans (le_of_eq ?_)
    exact (update_self hi sent s.srflxExpected).symm
  | (a, si) :: l, sent, s => by
    unfold Agent.bindingLoop
    split_ifs
    · exact sends_bindingLoop l sent s
    · have h0 : Unasked s { s with pendingGather := s.pendingGather + 1 } := .of_eq rfl rfl
      obtain ⟨h1, hone⟩ := sends_binding sort e hi si a { s with pendingGather := s.pendingGather + 1 }
      obtain ⟨h2, hloop⟩ := sends_bindingLoop l (sent + 1)
        ({ s with pendingGather := s.pendingGather + 1 }.sendStunBindingForHost sort e hi si a)
      refine ⟨(h0.sends.trans h1).trans h2, fun hle => hloop ?_⟩
      have hsame := h0.waiting hi
      omega

theorem waiting_foldl (f : Agent → ℕ → Agent) (hf : ∀ hi s, Sends hi s (f s hi) ∧
      (s.waiting hi = 0 → (f s hi).waiting hi ≤ (f s hi).srflxExpected hi)) :
    ∀ (his : List ℕ) (s : Agent), his.Nodup → (∀ hi ∈ his, s.waiting hi = 0) →
      (∀ hi, s.waiting hi ≤ s.srflxExpected hi) →
      (his.foldl f s).srflxMapped = s.srflxMapped ∧ (his.foldl f s).srflxReceived = s.srflxReceived ∧
        ((his.foldl f s).stunDnsPending, (his.foldl f s).stunDnsQueries) = (s.stunDnsPending, s.stunDnsQueries) ∧
        (s.state ≠ .new → (his.foldl f s).state ≠ .new) ∧
        ∀ hi, (his.foldl f s).waiting hi ≤ (his.foldl f s).srflxExpected hi
  | [], s, _, _, hle => ⟨rfl, rfl, rfl, id, hle⟩
  | hi :: his, s, hnd, hnone, hle => by
    obtain ⟨hnot, hnd⟩ := nodup_cons.mp hnd
    obtain ⟨hs, hown⟩ := hf hi s
    have hrest : ∀ h ∈ his, (f s hi).waiting h = 0 := fun h hmem =>
      (hs.others h (fun heq => hnot (heq ▸ hmem))).2.trans (hnone h (mem_cons_of_mem _ hmem))
    have hle' : ∀ h, (f s hi).waiting h ≤ (f s hi).srflxExpected h := by
      intro h
      by_cases heq : h = hi
      · rw [heq]
        exact hown (hnone hi mem_cons_self)
      · rw [(hs.others h heq).1, (hs.others h heq).2]
        exact hle h
    obtain ⟨h1, h2, h3, h4, h5⟩ := waiting_foldl f hf his (f s hi) hnd hrest hle'
    exact ⟨h1.trans hs.mapped, h2.trans hs.received, h3.trans hs.queries, fun h => h4 (hs.begun h), h5⟩

/-- **The requests to all servers.** -/
theorem Asking.checkStunDnsDone (h : s.Asking) (hb : s.state ≠ .new) (hnone : s.asked = [])
    (hzero : ∀ hi, s.srflxReceived hi = 0) (hpend : s.stunDnsPending = 0) :
    (s.checkStunDnsDone sort e).Asking ∧ (s.checkStunDnsDone sort e).srflxMapped = s.srflxMapped ∧
      (s.checkStunDnsDone sort e).srflxReceived = s.srflxReceived := by
  have hq : s.stunDnsQueries = [] := length_eq_zero_iff.mp (h.pending ▸ hpend)
  unfold Agent.checkStunDnsDone
  rw [if_neg (by omega)]
  split_ifs
  · have hu := Unasked.gatherDone sort s
    exact ⟨h.unasked hu, hu.mapped, hu.received⟩
  · have hidle : ∀ hi, s.waiting hi = 0 := fun hi => by
      unfold Agent.waiting
      rw [hnone]
      rfl
    have hall := waiting_foldl (fun s hi => s.bindingLoop sort e hi s.stunAddrs.zipIdx 0)
      (fun hi s => ⟨(sends_bindingLoop _ 0 s).1, fun h0 => (sends_bindingLoop _ 0 s).2 h0.le⟩)
      (List.range (min s.hostCount hostMax)) { s with pendingGather := s.pendingGather - 1 } nodup_range
      (fun hi _ => hidle hi) (fun hi => (hidle hi).le.trans (Nat.zero_le _))
    obtain ⟨h1, h2, h3, h4, h5⟩ := hall
    simp only [Prod.mk.injEq] at h3
    have hsent : ({ s with pendingGather := s.pendingGather - 1 }.sendStunBindingsAll sort e).Asking := by
      refine ⟨h3.1.trans (h.pending.trans (congrArg List.length h3.2.symm)), fun hnew => absurd hnew (h4 hb), ?_,
        fun hi => ?_⟩
      · rintro (hnew | hne)
        · exact absurd hnew (h4 hb)
        · exact absurd (h3.2.trans hq) hne
      · have hrec := congrFun h2 hi
        have hle := h5 hi
        have h0 := hzero hi
        unfold Agent.sendStunBindingsAll
        dsimp only at hrec h0 ⊢
        omega
    have hu := Unasked.gatherCheckDone sort ({ s with pendingGather := s.pendingGather - 1 }.sendStunBindingsAll sort e)
    exact ⟨hsent.unasked hu, hu.mapped.trans h1, hu.received.trans h2⟩

theorem Asking.onStunDnsDone {port : ℕ} {result : Option Addr} (h : s.Asking) (hmem : (si, port) ∈ s.stunDnsQueries) :
    (s.onStunDnsDone sort e si port result).Asking ∧
      (s.onStunDnsDone sort e si port result).srflxMapped = s.srflxMapped ∧
      (s.onStunDnsDone sort e si port result).srflxReceived = s.srflxReceived := by
  have hne : s.stunDnsQueries ≠ [] := ne_nil_of_mem hmem
  have hb : s.state ≠ .new := fun hnew => hne (h.fresh hnew)
  obtain ⟨hnone, hzero⟩ := h.unsent (.inr hne)
  let q := s.stunDnsQueries.erase (si, port)
  have hq : s.stunDnsPending - 1 = q.length := by
    rw [h.pending]
    exact (length_erase_of_mem hmem).symm
  obtain ⟨servers, heq⟩ := onStunDnsDone_eq sort e si port result s
  rw [heq]
  have h1 : ({ s with
      stunDnsQueries := q, stunDnsPending := s.stunDnsPending - 1, stunAddrs := servers } : Agent).Asking :=
    ⟨hq, fun hnew => absurd hnew hb, fun _ => ⟨hnone, hzero⟩, h.awaited⟩
  by_cases hpos : 0 < s.stunDnsPending - 1
  · unfold Agent.checkStunDnsDone
    rw [if_pos hpos]
    exact ⟨h1, rfl, rfl⟩
  · exact h1.checkStunDnsDone hb hnone hzero (by dsimp only; omega)

theorem Asking.gather {ifaces : Option (List Iface)} (h : s.Asking) :
    (s.gather sort e ifaces).Asking ∧ (s.gather sort e ifaces).answers = s.answers := by
  have haside : ∀ {t : Agent}, Unasked s t → t.Asking ∧ t.answers = s.answers := fun hu => ⟨h.unasked hu, hu.answers⟩
  have h1 : Unasked s (s.setState .gathering) := Unasked.setState (by decide) s
  unfold Agent.gather
  by_cases hnew : s.state ≠ .new
  · rw [if_pos hnew]
    exact haside (.refl s)
  rw [if_neg hnew]
  obtain ⟨hnone, hzero⟩ := h.unsent (.inl (not_not.mp hnew))
  cases ifaces with
  | none => exact haside (h1.trans (Unasked.setState (by decide) _))
  | some is =>
    dsimp only
    have hcount : ∀ (s : Agent) n, Unasked s { s with hostCount := n } := fun _ _ => .of_eq rfl rfl
    have h2 : Unasked s ((s.setState .gathering).gatherHosts is) :=
      (h1.trans (Unasked.hostLoop 0 is _)).trans (hcount _ _)
    have hb : ((s.setState .gathering).gatherHosts is).state ≠ .new :=
      ((Unasked.hostLoop 0 is _).trans (hcount _ _)).begun (s := s.setState .gathering) (AgentState.noConfusion)
    generalize (s.setState .gathering).gatherHosts is = u at h2 hb ⊢
    by_cases hno : u.hostCount = 0
    · rw [if_pos hno]
      exact haside (h2.trans (Unasked.setState (by decide) _))
    rw [if_neg hno]
    have hu := h.unasked h2
    have h3 : (u.startQueries e).Asking := by
      refine ⟨rfl, fun hn => absurd hn hb, fun _ => ⟨perm_nil.mp (hnone ▸ h2.asked), fun hi => ?_⟩, hu.awaited⟩
      exact (congrFun h2.received hi).trans (hzero hi)
    have h4 : Unasked (u.startQueries e) (u.gatherServers sort e) := by
      unfold Agent.gatherServers
      dsimp only
      split_ifs
      · exact Unasked.gatherCheckDone sort _
      · exact .of_eq rfl rfl
    exact ⟨h3.unasked h4, h4.answers.trans h2.answers⟩

/-! ### A request ends -/

/-- The transaction that a datagram answers, and the response. -/
def answered (sort : PairSort) (e : Env) (datagram : Bytes) (s : Agent) : Option (Txn Ctx Request × StunMsg) :=
  let raw := datagram.take 2048
  if 3 < raw.headD 255 then none
  else
    match decode raw with
    | none => none
    | some msg =>
      if msg.isRequest || msg.isIndication || (s.turnOnResponse sort e msg).isSome then none
      else ((s.txnMgr.find msg.txnId).bind (s.txnMgr[·]?)).map (·, msg)

/-- The request to a STUN server that a call ends: its host and server, and the response, if there is one. -/
def srflxEnd (sort : PairSort) (s : Agent) (m : Env × Input) : Option (ℕ × ℕ × Option StunMsg) :=
  match m.2 with
  | .recv _ _ datagram => (s.answered sort m.1 datagram).bind fun a => a.1.asks.map fun q => (q.1, q.2, some a.2)
  | .retransmit i =>
    match (s.txnMgr.retransmit i).2 with
    | .timeout t => t.asks.map fun q => (q.1, q.2, none)
    | _ => none
  | _ => none

def response (sort : PairSort) (s : Agent) (m : Env × Input) : Option (Txn Ctx Request × StunMsg) :=
  match m.2 with
  | .recv _ _ datagram => s.answered sort m.1 datagram
  | _ => none

/-- The call is no response to a request that has timed out: its context has been freed. -/
def InTime (sort : PairSort) (s : Agent) (m : Env × Input) : Prop := ∀ a ∈ s.response sort m, a.1.cancelled = false

instance (sort : PairSort) (s : Agent) (m : Env × Input) : Decidable (s.InTime sort m) :=
  inferInstanceAs (Decidable (∀ a ∈ s.response sort m, _))

/-- What a call does to the STUN servers' part. -/
inductive Moves (sort : PairSort) (s : Agent) (m : Env × Input) (t : Agent) : Prop
  | aside : srflxEnd sort s m = none → Unasked s t → Moves sort s m t
  | gather (ifaces : Option (List Iface)) : srflxEnd sort s m = none → t = s.gather sort m.1 ifaces → Moves sort s m t
  | dns (si port : ℕ) (result : Option Addr) : srflxEnd sort s m = none → (si, port) ∈ s.stunDnsQueries →
      t = s.onStunDnsDone sort m.1 si port result → Moves sort s m t
  | ends (hi si : ℕ) (msg : Option StunMsg) (mgr : TxnMgr Ctx Request) : srflxEnd sort s m = some (hi, si, msg) →
      ((hi, si) :: askedOf mgr).Perm s.asked →
      t = { s with txnMgr := mgr }.onSrflxResponse sort m.1 msg hi si → Moves sort s m t

variable {r : Txn Ctx Request}

theorem asks_of_check {i : ℕ} {ends : ℕ × ℕ} (h : r.ctx = .check i ends) : r.asks = none := by
  unfold Txn.asks
  rw [h]

theorem asks_of_srflx (h : r.ctx = .srflx hi si) :
    r.asks = if r.cancelled then none else some (hi, si) := by
  unfold Txn.asks Txn.live
  rw [h]
  cases r.cancelled with
  | false | true => rfl

theorem asks_of_cancelled (h : r.cancelled = true) : r.asks = none := by
  cases hctx : r.ctx with
  | check i ends => exact asks_of_check hctx
  | srflx hi si => exact (asks_of_srflx hctx).trans (if_pos h)

theorem moves_onResponse {m : Env × Input} {msg : StunMsg}
    (h : srflxEnd sort s m = ((s.txnMgr.find msg.txnId).bind (s.txnMgr[·]?)).bind
      fun r => r.asks.map fun q => (q.1, q.2, some msg)) : Moves sort s m (s.onResponse sort m.1 msg) := by
  unfold Agent.onResponse
  cases hf : s.txnMgr.find msg.txnId with
  | none =>
    rw [hf] at h
    exact .aside h (.refl s)
  | some i =>
    rw [hf, bind_some] at h
    dsimp only
    cases hr : s.txnMgr[i]? with
    | none =>
      rw [hr] at h
      exact .aside h (.refl s)
    | some r =>
      rw [hr, bind_some] at h
      have hperm := askedOf_free hr
      dsimp only
      -- a transaction that does not wait for a STUN server takes nothing with it
      have hgone : r.asks = none → srflxEnd sort s m = none ∧ Unasked s { s with txnMgr := s.txnMgr.free i } := by
        intro hnone
        rw [hnone] at h hperm
        exact ⟨h, Unasked.table hperm⟩
      by_cases hc : r.cancelled = true
      · obtain ⟨hend, hu⟩ := hgone (asks_of_cancelled hc)
        rw [if_pos hc]
        exact .aside hend (hu.trans (Unasked.emit _ _))
      rw [if_neg hc]
      cases hctx : r.ctx with
      | check i' ends =>
        obtain ⟨hend, hu⟩ := hgone (asks_of_check hctx)
        exact .aside hend (hu.trans (Unasked.onCheckResponse m.1 _ _ _))
      | srflx hi si =>
        rw [asks_of_srflx hctx, if_neg hc] at h hperm
        exact .ends hi si (some msg) _ h hperm rfl

theorem askedOf_again {m : TxnMgr Ctx Request} {i n : ℕ} (h : m[i]? = some r) :
    (askedOf (m.set i { r with retransmitCount := n })).Perm (askedOf m) :=
  (perm_append_left_iff r.asks.toList).mp (askedOf_set (u := { r with retransmitCount := n }) h)

theorem askedOf_timeout {m : TxnMgr Ctx Request} {i : ℕ} (h : m[i]? = some r) :
    (r.asks.toList ++ askedOf (m.set i { r with cancelled := true })).Perm (askedOf m) := by
  have hset := askedOf_set (u := { r with cancelled := true }) h
  rw [asks_of_cancelled (r := { r with cancelled := true }) rfl] at hset
  exact hset

theorem moves_onRetransmit (e : Env) (i : ℕ) (s : Agent) :
    Moves sort s (e, .retransmit i) (s.onRetransmit sort e i) := by
  have hend : srflxEnd sort s (e, .retransmit i) = match (s.txnMgr.retransmit i).2 with
      | .timeout r => r.asks.map fun q => (q.1, q.2, none)
      | _ => none := rfl
  unfold TxnMgr.retransmit at hend
  unfold Agent.onRetransmit TxnMgr.retransmit
  cases hr : s.txnMgr[i]? with
  | none =>
    rw [hr] at hend
    exact .aside hend (.refl s)
  | some r =>
    rw [hr] at hend
    dsimp only at hend ⊢
    by_cases hc : r.cancelled = true
    · rw [if_pos hc] at hend ⊢
      exact .aside hend (.refl s)
    rw [if_neg hc] at hend ⊢
    by_cases hn : maxRetransmits ≤ r.retransmitCount
    · rw [if_pos hn] at hend ⊢
      dsimp only at hend ⊢
      have hperm := askedOf_timeout hr
      generalize s.txnMgr.set i { r with cancelled := true } = mgr at hperm ⊢
      cases hctx : r.ctx with
      | check i' ends =>
        rw [asks_of_check hctx] at hend hperm
        exact .aside hend ((Unasked.table hperm).trans (Unasked.onCheckResponse e none i' _))
      | srflx hi si =>
        rw [asks_of_srflx hctx, if_neg hc] at hend hperm
        exact .ends hi si none _ hend hperm rfl
    · rw [if_neg hn] at hend ⊢
      exact .aside hend ((Unasked.table (askedOf_again hr)).trans (Unasked.resend e r _))

theorem moves_onUdpRecv {hmac : Bytes → Bytes → Bytes} (e : Env) (sock : Sock) (src : Addr) (datagram : Bytes)
    (s : Agent) : Moves sort s (e, .recv sock src datagram) (s.onUdpRecv sort e hmac sock src datagram) := by
  have hend : srflxEnd sort s (e, .recv sock src datagram) =
      (s.answered sort e datagram).bind fun a => a.1.asks.map fun q => (q.1, q.2, some a.2) := rfl
  unfold Agent.answered at hend
  unfold Agent.onUdpRecv
  dsimp only at hend ⊢
  by_cases hother : 3 < (datagram.take 2048).headD 255
  · rw [if_pos hother] at hend ⊢
    exact .aside hend (.refl s)
  rw [if_neg hother] at hend ⊢
  cases hmsg : decode (datagram.take 2048) with
  | none =>
    rw [hmsg] at hend
    exact .aside hend (.refl s)
  | some msg =>
    rw [hmsg] at hend
    dsimp only at hend ⊢
    by_cases hreq : msg.isRequest = true
    · rw [hreq] at hend
      rw [if_pos hreq]
      split_ifs
      · exact .aside hend (Unasked.handleRequest e sock src _ _ s)
      · exact .aside hend (.refl s)
    rw [if_neg hreq]
    by_cases hind : msg.isIndication = true
    · rw [hind, Bool.or_true, Bool.true_or] at hend
      rw [if_pos hind]
      exact .aside hend (.refl s)
    rw [if_neg hind]
    rw [Bool.not_eq_true] at hreq hind
    rw [hreq, hind] at hend
    cases hturn : s.turnOnResponse sort e msg with
    | some t =>
      rw [hturn] at hend
      exact .aside hend (Unasked.turnOnResponse hturn)
    | none =>
      rw [hturn] at hend
      refine moves_onResponse (m := (e, .recv sock src datagram)) (hend.trans ?_)
      exact bind_map

/-- **Every call** leaves the STUN servers' part alone, gathers, learns of a server, or ends a request. -/
theorem moves_of_step {hmac : Bytes → Bytes → Bytes} {m : Env × Input} (h : step sort hmac s m = some t) :
    Moves sort s m t := by
  obtain ⟨e, inp⟩ := m
  cases inp with
  | gather ifaces => exact .gather ifaces rfl (some.inj h).symm
  | setRemoteDescription d => exact .aside rfl (some.inj h ▸ Unasked.setRemoteDescription sort e d s)
  | addRemoteCandidate c => exact .aside rfl (some.inj h ▸ Unasked.addRemoteCandidate sort e c s)
  | setRole r => exact .aside rfl (some.inj h ▸ .of_eq rfl rfl)
  | recv sock src datagram => exact some.inj h ▸ moves_onUdpRecv e sock src datagram s
  | retransmit i => exact some.inj h ▸ moves_onRetransmit e i s
  | turnRetransmit i => exact .aside rfl (some.inj h ▸ Unasked.onTurnRetransmit sort e i s)
  | timer k =>
    unfold Agent.step at h
    dsimp only at h
    split_ifs at h
    have h1 : Unasked s { s with timers := s.timers.erase k } := .of_eq rfl rfl
    exact .aside rfl (some.inj h ▸ h1.trans (Unasked.onTimer sort e k _))
  | turnRefresh =>
    unfold Agent.step at h
    dsimp only at h
    split_ifs at h
    exact .aside rfl (some.inj h ▸ Unasked.refreshTimerCb e s)
  | stunDns si port result =>
    unfold Agent.step at h
    dsimp only at h
    split_ifs at h with hmem
    exact .dns si port result rfl hmem (some.inj h).symm
  | turnDns port result =>
    unfold Agent.step at h
    dsimp only at h
    split_ifs at h
    exact .aside rfl (some.inj h ▸ Unasked.onTurnDnsDone sort e port result s)

/-! ### What an answer changes -/

theorem recordMapped_eq (msg : Option StunMsg) (hi si : ℕ) (s : Agent) :
    ∃ f, (∀ t : Agent, t.srflxMapped = s.srflxMapped → t.recordMapped msg hi si = { t with srflxMapped := f }) ∧
      ∀ h j a, f h j = some a → s.srflxMapped h j = some a ∨ h = hi ∧ j = si ∧ mappedOf msg = some a := by
  unfold Agent.recordMapped
  cases hm : mappedOf msg with
  | none => exact ⟨s.srflxMapped, fun t ht => by rw [← ht], fun h j a ha => .inl ha⟩
  | some b =>
    dsimp only
    by_cases hin : hi < hostMax ∧ si < stunServerMax
    · refine ⟨Function.update s.srflxMapped hi (Function.update (s.srflxMapped hi) si (some b)),
        fun t ht => by rw [if_pos hin, ht], fun h j a ha => ?_⟩
      by_cases hh : h = hi
      · rw [hh, update_self] at ha
        by_cases hj : j = si
        · rw [hj, update_self] at ha
          exact .inr ⟨hh, hj, ha⟩
        · rw [update_of_ne hj] at ha
          exact .inl (hh ▸ ha)
      · rw [update_of_ne hh] at ha
        exact .inl ha
    · exact ⟨s.srflxMapped, fun t ht => by rw [if_neg hin, ← ht], fun h j a ha => .inl ha⟩

def counted (hi : ℕ) (s : Agent) : ℕ → ℕ :=
  if hi < hostMax then Function.update s.srflxReceived hi (s.srflxReceived hi + 1) else s.srflxReceived

def Complete (hi : ℕ) (s : Agent) : Prop := hi < hostMax ∧ s.srflxExpected hi ≤ s.srflxReceived hi + 1

instance (hi : ℕ) (s : Agent) : Decidable (s.Complete hi) := inferInstanceAs (Decidable (_ ∧ _))

theorem countResponse_eq (e : Env) (hi : ℕ) (s : Agent) : s.countResponse e hi =
    if s.Complete hi then ({ s with srflxReceived := s.counted hi } : Agent).finalizeSrflxForHost e hi
    else { s with srflxReceived := s.counted hi } := by
  unfold Agent.countResponse Agent.counted
  by_cases hhost : hi < hostMax
  · simp only [if_pos hhost, update_self]
    by_cases hall : s.srflxExpected hi ≤ s.srflxReceived hi + 1
    · rw [if_pos hall, if_pos (show s.Complete hi from ⟨hhost, hall⟩)]
    · rw [if_neg hall, if_neg (fun hc : s.Complete hi => hall hc.2)]
  · rw [if_neg hhost, if_neg (fun hc : s.Complete hi => hhost hc.1), if_neg hhost]

theorem gatherDone_localCandidates (sort : PairSort) (s : Agent) :
    (s.gatherDone sort).localCandidates = s.localCandidates := by
  have hrestart : ∀ s : Agent, (s.restart sort).localCandidates = s.localCandidates := by
    intro s
    unfold Agent.restart Agent.startChecks Agent.scheduleNextCheck
    split_ifs
    · rfl
    · rfl
    · rfl
  unfold Agent.gatherDone Agent.gatherCheckDone Agent.endGathering
  split_ifs
  · rfl
  · rfl
  · rfl
  · dsimp only
    split_ifs
    · exact hrestart _
    · rfl

theorem unasked_countResponse (sort : PairSort) (e : Env) (hi : ℕ) (s : Agent) :
    Unasked { s with srflxReceived := s.counted hi } ((s.countResponse e hi).gatherDone sort) := by
  refine Unasked.trans ?_ (Unasked.gatherDone sort _)
  rw [countResponse_eq]
  split_ifs
  · exact Unasked.finalizeSrflxForHost e hi _
  · exact .refl _

theorem counted_le (hi h : ℕ) (s : Agent) : s.srflxReceived h ≤ s.counted hi h ∧
    s.counted hi h ≤ s.srflxReceived h + if h = hi then 1 else 0 := by
  unfold Agent.counted
  split_ifs with hhost hh
  · rw [hh, update_self]
    exact ⟨Nat.le_succ _, le_refl _⟩
  · rw [update_of_ne hh]
    exact ⟨le_refl _, le_refl _⟩
  · exact ⟨le_refl _, Nat.le_succ _⟩
  · exact ⟨le_refl _, le_refl _⟩

theorem Asking.answer {mgr : TxnMgr Ctx Request} {f : ℕ → ℕ → Option Addr} (h : s.Asking)
    (hperm : ((hi, si) :: askedOf mgr).Perm s.asked) :
    ({ s with txnMgr := mgr, srflxMapped := f, srflxReceived := s.counted hi } : Agent).Asking ∧
      s.srflxReceived hi + 1 ≤ s.srflxExpected hi := by
  have hne : s.asked ≠ [] := fun hnil => by
    rw [hnil] at hperm
    exact absurd hperm.length_eq (by simp)
  have hwait : ∀ h, s.waiting h = (if h = hi then 1 else 0) + (askedOf mgr).countP (fun q => q.1 = h) := by
    intro h
    unfold Agent.waiting
    rw [← hperm.countP_eq, countP_cons, Nat.add_comm]
    by_cases hh : hi = h
    · rw [if_pos hh.symm, if_pos (by simpa using hh)]
    · rw [if_neg (Ne.symm hh), if_neg (by simpa using hh)]
  refine ⟨⟨h.pending, h.fresh, fun hun => absurd (h.unsent hun).1 hne, fun j => ?_⟩, ?_⟩
  · have haw := h.awaited j
    rw [hwait j] at haw
    have hle := (counted_le hi j s).2
    show s.counted hi j + (askedOf mgr).countP (fun q => q.1 = j) ≤ s.srflxExpected j
    omega
  · have haw := h.awaited hi
    rw [hwait hi, if_pos rfl] at haw
    omega

end Agent

/-! ### The agent with what was reported -/

/-- A call of `finalize_srflx_for_host`: its host, the places it uses, `port_predict_count` and the candidates it
makes. -/
structure Finalize where
  host : ℕ
  slots : List ℕ
  count : ℕ
  made : List Candidate

/-- The agent with the mapped addresses that servers have reported, by host and server, and the calls of
`finalize_srflx_for_host`. -/
structure SrflxWorld where
  agent : Agent
  answers : List (ℕ × ℕ × Addr) := []
  finals : List Finalize := []

namespace SrflxWorld

open Libx.Ice.Agent

variable {sort : PairSort} {hmac : Bytes → Bytes → Bytes} {w w' : SrflxWorld} {s : Agent} {hi si : ℕ}
  {msg : Option StunMsg} {m : Env × Input}

/-- A request of the host `hi` to the server `si` has ended, and the agent goes on as `s`. -/
def ended (hi si : ℕ) (msg : Option StunMsg) (s : Agent) (w : SrflxWorld) : SrflxWorld where
  agent := s
  answers := w.answers ++ ((mappedOf msg).map (hi, si, ·)).toList
  finals := w.finals ++
    if w.agent.Complete hi then
      [{ host := hi
         slots := (w.agent.recordMapped msg hi si).srflxSlots hi
         count := w.agent.portPredictCount
         made := s.localCandidates.drop w.agent.localCandidates.length }]
    else []

def step (sort : PairSort) (hmac : Bytes → Bytes → Bytes) (w : SrflxWorld) (m : Env × Input) : Option SrflxWorld :=
  (w.agent.step sort hmac m).map fun s =>
    match w.agent.srflxEnd sort m with
    | none => { w with agent := s }
    | some (hi, si, msg) => w.ended hi si msg s

/-- What a call of `finalize_srflx_for_host` uses and makes comes from answers for its host: a candidate has an
address that a server has reported, or one with a port predicted from two such. -/
structure FromAnswers (w : SrflxWorld) (f : Finalize) : Prop where
  slots : ∀ si ∈ f.slots, ∃ a, (f.host, si, a) ∈ w.answers
  made : ∀ c ∈ f.made, (∃ si, (f.host, si, c.addr) ∈ w.answers) ∨
    ∃ first last : ℕ × Addr, (f.host, first) ∈ w.answers ∧ (f.host, last) ∈ w.answers ∧
      Predicted f.count first last c.addr

/-- A host is finalized once, and from answers when it has any. -/
structure Reflexive (w : SrflxWorld) : Prop where
  once : (w.finals.map Finalize.host).Nodup
  made : ∀ f ∈ w.finals, f.slots ≠ [] → w.FromAnswers f

theorem FromAnswers.mono {f : Finalize} (h : w.FromAnswers f) (hsub : w.answers ⊆ w'.answers) : w'.FromAnswers f := by
  refine ⟨fun si hsi => ?_, fun c hc => ?_⟩
  · obtain ⟨a, ha⟩ := h.slots si hsi
    exact ⟨a, hsub ha⟩
  · rcases h.made c hc with ⟨si, hr⟩ | ⟨first, last, hf, hl, hp⟩
    · exact .inl ⟨si, hsub hr⟩
    · exact .inr ⟨first, last, hsub hf, hsub hl, hp⟩

/-- What every run keeps: what is kept of the answers was reported, and a host that has been finalized has all its
answers. -/
structure Kept (w : SrflxWorld) : Prop where
  asking : w.agent.Asking
  mapped : ∀ hi si a, w.agent.srflxMapped hi si = some a → (hi, si, a) ∈ w.answers
  full : ∀ f ∈ w.finals, 0 < w.agent.srflxReceived f.host ∧
    w.agent.srflxExpected f.host ≤ w.agent.srflxReceived f.host
  reflexive : w.Reflexive

theorem Kept.goesOn (h : w.Kept) (hs : s.Asking) (ha : s.answers = w.agent.answers) :
    ({ w with agent := s } : SrflxWorld).Kept := by
  unfold Agent.answers at ha
  simp only [Prod.mk.injEq] at ha
  obtain ⟨hm, hr, he⟩ := ha
  refine ⟨hs, fun hi si a hmap => h.mapped hi si a (hm ▸ hmap), fun f hf => ?_, ⟨h.reflexive.once, fun f hf hne => ?_⟩⟩
  · show 0 < s.srflxReceived f.host ∧ s.srflxExpected f.host ≤ s.srflxReceived f.host
    rw [hr, he]
    exact h.full f hf
  · exact (h.reflexive.made f hf hne).mono (List.Subset.refl _)

theorem Kept.dns {port : ℕ} {result : Option Addr} {e : Env} (h : w.Kept) (hmem : (si, port) ∈ w.agent.stunDnsQueries) :
    ({ w with agent := w.agent.onStunDnsDone sort e si port result } : SrflxWorld).Kept := by
  obtain ⟨hs, hm, hr⟩ := @Asking.onStunDnsDone sort e w.agent si port result h.asking hmem
  have hnone : w.finals = [] := by
    refine eq_nil_iff_forall_not_mem.mpr fun f hf => ?_
    have hzero := (h.asking.unsent (.inr (ne_nil_of_mem hmem))).2 f.host
    have hpos := (h.full f hf).1
    omega
  refine ⟨hs, fun hi si a hmap => h.mapped hi si a ?_, ?_, ⟨h.reflexive.once, ?_⟩⟩
  · exact hm ▸ hmap
  all_goals
    rw [hnone]
    exact fun f hf => absurd hf not_mem_nil

/-- **A host is finalized**: from a place that holds an address, with what was reported. -/
theorem fromAnswers_finalize {u : Agent} {e : Env} {made : List Candidate}
    (hm : ∀ si a, u.srflxMapped hi si = some a → (hi, si, a) ∈ w.answers) (hne : u.srflxSlots hi ≠ [])
    (hmade : (u.finalizeSrflxForHost e hi).localCandidates = u.localCandidates ++ made) :
    w.FromAnswers ⟨hi, u.srflxSlots hi, u.portPredictCount, made⟩ := by
  refine ⟨fun si hsi => ?_, fun c hc => ?_⟩
  · obtain ⟨a, ha⟩ := mapped_of_mem_srflxSlots hsi
    exact ⟨a, hm si a ha⟩
  · obtain ⟨first, hf⟩ := isSome_iff_exists.mp (isSome_head?.mpr hne)
    obtain ⟨last, hl⟩ := isSome_iff_exists.mp (List.getLast?_isSome.mpr hne)
    obtain ⟨a, ha⟩ := mapped_of_mem_srflxSlots (mem_of_mem_head? hf)
    obtain ⟨b, hb⟩ := mapped_of_mem_srflxSlots (mem_of_getLast? hl)
    obtain ⟨cs, hcs, hall⟩ := makes_finalizeSrflxForHost e u hf hl ha hb
    rw [hmade, append_cancel_left_eq] at hcs
    rcases hall c (hcs ▸ hc) with heq | hp
    · exact .inl ⟨last, heq ▸ hm last b hb⟩
    · exact .inr ⟨(first, a), (last, b), hm first a ha, hm last b hb, hp⟩

/-- **The end of a request.** -/
theorem Kept.ends {mgr : TxnMgr Ctx Request} {e : Env} (h : w.Kept)
    (hperm : ((hi, si) :: askedOf mgr).Perm w.agent.asked) :
    (w.ended hi si msg ({ w.agent with txnMgr := mgr }.onSrflxResponse sort e msg hi si)).Kept := by
  obtain ⟨f, hrec, hnew⟩ := recordMapped_eq msg hi si w.agent
  let u : Agent := { w.agent with txnMgr := mgr, srflxMapped := f }
  have hstep : { w.agent with txnMgr := mgr }.onSrflxResponse sort e msg hi si =
      (u.countResponse e hi).gatherDone sort := by
    unfold Agent.onSrflxResponse
    rw [hrec { w.agent with txnMgr := mgr } rfl]
  have hu := unasked_countResponse sort e hi u
  obtain ⟨hasking, hroom⟩ := h.asking.answer (f := f) hperm
  rw [hstep]
  -- what was kept before, and the answer
  have hmapped : ∀ h' j a, f h' j = some a → (h', j, a) ∈ w.answers ++ ((mappedOf msg).map (hi, si, ·)).toList := by
    intro h' j a ha
    rcases hnew h' j a ha with hold | ⟨rfl, rfl, hm⟩
    · exact mem_append_left _ (h.mapped h' j a hold)
    · rw [hm]
      exact mem_append_right _ mem_cons_self
  have hfull : ∀ g ∈ w.finals, 0 < w.agent.counted hi g.host ∧
      w.agent.srflxExpected g.host ≤ w.agent.counted hi g.host := fun g hg =>
    ⟨(h.full g hg).1.trans_le (counted_le hi g.host w.agent).1, (h.full g hg).2.trans (counted_le hi g.host w.agent).1⟩
  have hexp : ((u.countResponse e hi).gatherDone sort).srflxExpected = w.agent.srflxExpected := hu.expected
  have hrcv : ((u.countResponse e hi).gatherDone sort).srflxReceived = w.agent.counted hi := hu.received
  have hmap : ((u.countResponse e hi).gatherDone sort).srflxMapped = f := hu.mapped
  have hmono : ∀ g ∈ w.finals, g.slots ≠ [] →
      (w.ended hi si msg ((u.countResponse e hi).gatherDone sort)).FromAnswers g := fun g hg hne =>
    (h.reflexive.made g hg hne).mono (subset_append_left _ _)
  refine ⟨hasking.unasked hu, fun h' j a ha => hmapped h' j a (hmap ▸ ha), fun g hg => ?_, ?_⟩
  · show 0 < ((u.countResponse e hi).gatherDone sort).srflxReceived g.host ∧
      ((u.countResponse e hi).gatherDone sort).srflxExpected g.host ≤
        ((u.countResponse e hi).gatherDone sort).srflxReceived g.host
    rw [hexp, hrcv]
    rcases mem_append.mp hg with hold | hlast
    · exact hfull g hold
    · split_ifs at hlast with hc
      · rw [mem_singleton.mp hlast]
        have hcount : w.agent.counted hi hi = w.agent.srflxReceived hi + 1 := by
          unfold Agent.counted
          rw [if_pos hc.1, update_self]
        dsimp only
        rw [hcount]
        exact ⟨Nat.succ_pos _, hc.2⟩
      · exact absurd hlast not_mem_nil
  · by_cases hc : w.agent.Complete hi
    swap
    · have hsame : (w.ended hi si msg ((u.countResponse e hi).gatherDone sort)).finals = w.finals := by
        unfold SrflxWorld.ended
        rw [if_neg hc, List.append_nil]
      refine ⟨hsame ▸ h.reflexive.once, fun g hg hne => ?_⟩
      rw [hsame] at hg
      exact hmono g hg hne
    · let last : Finalize :=
        { host := hi, slots := (w.agent.recordMapped msg hi si).srflxSlots hi, count := w.agent.portPredictCount
          made := ((u.countResponse e hi).gatherDone sort).localCandidates.drop w.agent.localCandidates.length }
      have hlast : (w.ended hi si msg ((u.countResponse e hi).gatherDone sort)).finals = w.finals ++ [last] := by
        unfold SrflxWorld.ended
        rw [if_pos hc]
      let v : Agent := { u with srflxReceived := u.counted hi }
      have hlocals : ((u.countResponse e hi).gatherDone sort).localCandidates =
          (v.finalizeSrflxForHost e hi).localCandidates := by
        rw [gatherDone_localCandidates, countResponse_eq, if_pos (show u.Complete hi from hc)]
      have hmade : (v.finalizeSrflxForHost e hi).localCandidates = v.localCandidates ++ last.made := by
        show _ = w.agent.localCandidates ++ List.drop w.agent.localCandidates.length _
        rw [hlocals]
        exact (prefix_iff_eq_append.mp (Frame.finalizeSrflxForHost e hi v).locals).symm
      have hslots : last.slots = v.srflxSlots hi := by
        show (w.agent.recordMapped msg hi si).srflxSlots hi = v.srflxSlots hi
        rw [hrec w.agent rfl]
        rfl
      refine ⟨?_, fun g hg hne => ?_⟩
      · rw [hlast, map_append]
        refine nodup_append.mpr ⟨h.reflexive.once, nodup_singleton _, ?_⟩
        rintro _ hold _ hhi rfl
        -- a host that has been finalized has no request under way
        obtain ⟨g, hg, heq⟩ := mem_map.mp hold
        have hg' := (h.full g hg).2
        rw [heq, mem_singleton.mp hhi] at hg'
        exact absurd (hroom.trans hg') (by dsimp only [last]; omega)
      · rw [hlast] at hg
        rcases mem_append.mp hg with hold | hmem
        · exact hmono g hold hne
        · rw [mem_singleton.mp hmem] at hne ⊢
          have hfrom : (w.ended hi si msg ((u.countResponse e hi).gatherDone sort)).FromAnswers
              ⟨hi, v.srflxSlots hi, v.portPredictCount, last.made⟩ :=
            fromAnswers_finalize (fun j a ha => hmapped hi j a ha) (hslots ▸ hne) hmade
          rw [← hslots] at hfrom
          exact hfrom

theorem Kept.step (h : w.Kept) (hs : w.step sort hmac m = some w') : w'.Kept := by
  obtain ⟨s, hstep, rfl⟩ := map_eq_some_iff.mp hs
  cases moves_of_step hstep with
  | aside hend hu =>
    rw [hend]
    exact h.goesOn (h.asking.unasked hu) hu.answers
  | gather ifaces hend heq =>
    rw [hend, heq]
    obtain ⟨hasking, hsame⟩ := @Asking.gather sort m.1 w.agent ifaces h.asking
    exact h.goesOn hasking hsame
  | dns si port result hend hmem heq =>
    rw [hend, heq]
    exact h.dns hmem
  | ends hi si msg mgr hend hperm heq =>
    rw [hend, heq]
    exact h.ends hperm

theorem kept_create (conf : Conf) (ufrag pwd : Bytes) : Kept ⟨create conf ufrag pwd, [], []⟩ :=
  ⟨⟨rfl, fun _ => rfl, fun _ => ⟨rfl, fun _ => rfl⟩, fun _ => Nat.zero_le _⟩, fun _ _ _ h => absurd h nofun,
    fun _ h => absurd h not_mem_nil, ⟨nodup_nil, fun _ h => absurd h not_mem_nil⟩⟩

/-- **Server-reflexive candidates come from answers**, in every run without a response to a request that has ended. -/
theorem reflexive_of_run {conf : Conf} {ufrag pwd : Bytes}
    (h : Run (step sort hmac) (fun w m => w.agent.InTime sort m) ⟨create conf ufrag pwd, [], []⟩ w) : w.Reflexive :=
  (h.preserves (fun _ _ _ hk _ hs => Kept.step hk hs) (kept_create conf ufrag pwd)).reflexive

/-! ### Runs on fixed inputs -/

/-- What a call of `finalize_srflx_for_host` uses and makes is what was reported: there is a place to use, and no
candidate has another address. -/
structure Reported (w : SrflxWorld) : Prop where
  once : (w.finals.map Finalize.host).Nodup
  slots : ∀ f ∈ w.finals, f.slots ≠ [] ∧ ∀ si ∈ f.slots, ∃ a, (f.host, si, a) ∈ w.answers
  made : ∀ f ∈ w.finals, ∀ c ∈ f.made, ∃ si, (f.host, si, c.addr) ∈ w.answers

/-- An agent with the STUN servers `a:1` and `b:1`. -/
def stunAgent : SrflxWorld :=
  ⟨create { role := .controlling, stunServer := some [97, 58, 49, 44, 98, 58, 49] } [117] [118], [], []⟩

/-- A response to the `n`-th transaction that reports the address 0.0.0.0 with `port`. -/
def stunAnswer (n : ℕ) (port : UInt8) : Bytes :=
  [1, 1, 0, 12] ++ magicCookie ++ lan.txnId n ++ [0, 32, 0, 8, 0, 1, 33, 18 ^^^ port, 33, 18, 164, 66]

theorem stunRun {p : SrflxWorld → Bool} {ms : List (Env × Input)}
    (h : Core.replay (step .stable lanHmac) (fun w m => w.agent.InTime .stable m) p stunAgent ms = true) :
    ∃ w, Run (step .stable lanHmac) (fun w m => w.agent.InTime .stable m) stunAgent w ∧ p w = true :=
  Core.exists_run_of_replay _ _ _ p (fun _ _ => of_decide_eq_true) h

/-- Both servers answer, the second with the next port. -/
def stunPorts : List (Env × Input) :=
  [.gather (some [lanIface]), .stunDns 0 1 (some (lanAddr 8)), .stunDns 1 1 (some (lanAddr 9)),
    .recv 0 (lanAddr 8) (stunAnswer 2 1), .recv 0 (lanAddr 9) (stunAnswer 3 2)].map (lan, ·)

theorem reflexive_of_run_ports :
    ∃ w, Run (step .stable lanHmac) (fun w m => w.agent.InTime .stable m) stunAgent w ∧
      (w.finals.map Finalize.slots = [[0, 1]]) ∧ w.Reflexive := by
  obtain ⟨w, hrun, hp⟩ := stunRun (p := fun w => w.finals.map Finalize.slots = [[0, 1]])
    (show Core.replay _ _ _ stunAgent stunPorts = true by decide +kernel)
  exact ⟨w, hrun, of_decide_eq_true hp, reflexive_of_run hrun⟩

/-- **Ports are predicted**: candidates are made with ports that no server has reported. -/
theorem not_reported_ports :
    ∃ w, Run (step .stable lanHmac) (fun w m => w.agent.InTime .stable m) stunAgent w ∧ ¬ w.Reported := by
  obtain ⟨w, hrun, hp⟩ := stunRun
    (p := fun w => w.finals.any fun f => f.made.any fun c => w.answers.all fun a => a.2.2 ≠ c.addr)
    (show Core.replay _ _ _ stunAgent stunPorts = true by decide +kernel)
  refine ⟨w, hrun, fun h => ?_⟩
  obtain ⟨f, hf, hany⟩ := any_eq_true.mp hp
  obtain ⟨c, hc, hall⟩ := any_eq_true.mp hany
  obtain ⟨si, hmem⟩ := h.made f hf c hc
  exact of_decide_eq_true (all_eq_true.mp hall _ hmem) rfl

end SrflxWorld

end Libx.Ice
