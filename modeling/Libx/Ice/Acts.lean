import Libx.Ice.Frame

/-!
# Libx.Ice.Acts — a step as a chain of acts

Whatever a call does to the checks is made of a few acts: a check is sent, a check ends, a pair is
nominated, the checks start over, pairs are added.  What an act keeps, every step keeps; the rest of the
agent's work leaves the checks alone.
-/

namespace Libx.Ice

open Libx.Agent (Bytes)
open List

namespace Agent

variable {sort : PairSort} {e : Env} {s t u : Agent} {i : ℕ}

/-! ### Acts -/

variable {ans : Sock → Addr → Bytes → Bool → Prop} {suc : Bytes → Prop}

/-- One act. -/
inductive Act (F : Agent → Agent → Prop) (sort : PairSort) (e : Env) (ans : Sock → Addr → Bytes → Bool → Prop) (suc : Bytes → Prop)
    (s : Agent) : Agent → Prop
  | frame {t : Agent} : F s t → Act F sort e ans suc s t
  | send (i : ℕ) : s.state = .checking → i < s.pairs.length → Act F sort e ans suc s (s.sendCheck e i)
  /-- A request goes out again. -/
  | again (c : Check) (sock : Sock) (use : Bool) : c ∈ s.checks → c.sock = some sock →
      Act F sort e ans suc s (s.emit (.request sock c.dest c.txnId use))
  /-- A check ends. -/
  | result (c : Check) (mgr : TxnMgr Ctx Request) (msg : Option StunMsg) : (c :: checksOf mgr).Perm s.checks →
      mgr.countP Txn.binding = s.bindings → (checkResult msg = .success → suc c.txnId) →
      Act F sort e ans suc s ({ s with txnMgr := mgr }.onCheckResponse e msg c.pair)
  | tryNominate : Act F sort e ans suc s (s.tryNominate e)
  | timeoutNominate (i : ℕ) (p : Pair) : s.state = .checking → s.nominated = none → s.pairs[i]? = some p →
      p.state = .succeeded → Act F sort e ans suc s ((s.nominate i .checkTimeout).setState .connected)
  | spray : s.state = .checking → s.nominated = none → Act F sort e ans suc s (s.startAggressiveSpray e)
  | fail : s.state = .checking → Act F sort e ans suc s (s.setState .failed)
  | restart : s.state ≠ .checking → s.gatheringDone = true → Act F sort e ans suc s (s.restart sort)
  | restartFailed : s.state = .failed → s.gatheringDone = true → Act F sort e ans suc s ({ s with nominated := none }.restart sort)
  | addPairs (ok : CandidateType → Bool) (r : ℕ) : s.state = .checking → r < s.remoteCandidates.length →
      Act F sort e ans suc s (s.addPairs ok r)
  | respond (sock : Sock) (src : Addr) (txnId : Bytes) (use : Bool) : ans sock src txnId use →
      Act F sort e ans suc s (s.emit (.response sock src txnId))
  | useCandidate (sock : Sock) (src : Addr) (txnId : Bytes) : ans sock src txnId true →
      Act F sort e ans suc s (s.emit (.useCandidate sock src))
  | peer (sock : Sock) (src : Addr) (txnId : Bytes) : ans sock src txnId true → s.role = .controlled →
      s.nominated = none → Act F sort e ans suc s (s.nominateByPeer src)
  | consent : Act F sort e ans suc s ({ s with timers := s.timers.erase .consent }.consentCb e)

def Acts (F : Agent → Agent → Prop) (sort : PairSort) (e : Env) (ans : Sock → Addr → Bytes → Bool → Prop) (suc : Bytes → Prop)
    (s t : Agent) : Prop := Relation.ReflTransGen (Act F sort e ans suc) s t

namespace Acts

variable {F G : Agent → Agent → Prop}

theorem refl (s : Agent) : Acts F sort e ans suc s s := Relation.ReflTransGen.refl

theorem one (h : Act F sort e ans suc s t) : Acts F sort e ans suc s t := Relation.ReflTransGen.single h

theorem trans (h₁ : Acts F sort e ans suc s t) (h₂ : Acts F sort e ans suc t u) : Acts F sort e ans suc s u :=
  Relation.ReflTransGen.trans h₁ h₂

theorem head (h₁ : Act F sort e ans suc s t) (h₂ : Acts F sort e ans suc t u) : Acts F sort e ans suc s u :=
  Relation.ReflTransGen.head h₁ h₂

theorem frame (h : F s t) : Acts F sort e ans suc s t := one (.frame h)

/-- **Invariant rule**: what every act keeps, a chain keeps. -/
theorem preserves {I : Agent → Prop} (hI : ∀ s t, I s → Act F sort e ans suc s t → I t)
    (h : Acts F sort e ans suc s t) (h0 : I s) : I t := by
  induction h with
  | refl => exact h0
  | tail _ ha ih => exact hI _ _ ih ha

theorem mono (hF : ∀ s t, F s t → G s t) (h : Acts F sort e ans suc s t) : Acts G sort e ans suc s t := by
  refine Relation.ReflTransGen.mono ?_ _ _ h
  intro u v hv
  cases hv with
  | frame hf => exact .frame (hF u v hf)
  | send i hs hi => exact .send i hs hi
  | again c sock use hc hs => exact .again c sock use hc hs
  | result c mgr msg hm hb hsuc => exact .result c mgr msg hm hb hsuc
  | tryNominate => exact .tryNominate
  | timeoutNominate i p hs hn hp hst => exact .timeoutNominate i p hs hn hp hst
  | spray hs hn => exact .spray hs hn
  | fail hs => exact .fail hs
  | restart hs hd => exact .restart hs hd
  | restartFailed hs hd => exact .restartFailed hs hd
  | addPairs ok r hs hr => exact .addPairs ok r hs hr
  | respond sock src txnId use ha => exact .respond sock src txnId use ha
  | useCandidate sock src txnId ha => exact .useCandidate sock src txnId ha
  | peer sock src txnId ha hr hn => exact .peer sock src txnId ha hr hn
  | consent => exact .consent

theorem weaken (h : Acts Still sort e ans suc s t) : Acts Frame sort e ans suc s t :=
  h.mono (fun _ _ hf => hf.frame)

/-! ### Gathering -/

theorem endGathering (timeout : Bool) (hs : s.state ≠ .checking) :
    Acts Frame sort e ans suc s (s.endGathering sort timeout) := by
  unfold Agent.endGathering
  dsimp only
  refine head (.frame (Frame.trans (t := { s with gatheringDone := true }) (Frame.of_eq rfl rfl)
    (Frame.emit _ (v := .endOfCandidates timeout s.operations) rfl))) ?_
  split_ifs
  · exact one (.restart hs rfl)
  · exact refl _

theorem gatherCheckDone (s : Agent) : Acts Frame sort e ans suc s (s.gatherCheckDone sort) := by
  unfold Agent.gatherCheckDone
  split_ifs with h1 h2 h3
  · exact refl s
  · exact refl s
  · exact refl s
  · have hs : s.state = .gathering := not_not.mp h2
    refine head (.frame ?_) (endGathering false ?_)
    · exact (Frame.cancel (k := .gather) (by decide) s.gatherTimer s).trans (Frame.of_eq rfl rfl)
    · show s.state ≠ .checking
      rw [hs]
      decide

theorem gatherDone (s : Agent) : Acts Frame sort e ans suc s (s.gatherDone sort) := by
  refine head (.frame ?_) (gatherCheckDone _)
  exact Frame.of_eq rfl rfl

theorem onSrflxResponse (msg : Option StunMsg) (hi si : ℕ) (s : Agent) :
    Acts Frame sort e ans suc s (s.onSrflxResponse sort e msg hi si) := by
  have h1 : Frame s (s.recordMapped msg hi si) := by
    unfold Agent.recordMapped
    split
    · exact .refl s
    · split_ifs
      · exact Frame.of_eq rfl rfl
      · exact .refl s
  have h2 : ∀ s : Agent, Frame s (s.countResponse e hi) := by
    intro s
    unfold Agent.countResponse
    dsimp only
    split_ifs
    · refine Frame.trans ?_ (Frame.finalizeSrflxForHost e hi _)
      exact Frame.of_eq rfl rfl
    · exact Frame.of_eq rfl rfl
    · exact .refl s
  exact head (.frame (h1.trans (h2 _))) (gatherDone _)

theorem sendStunBindingForHost (hi si : ℕ) (a : Addr) (s : Agent) :
    Acts Frame sort e ans suc s (s.sendStunBindingForHost sort e hi si a) := by
  unfold Agent.sendStunBindingForHost
  dsimp only
  split_ifs
  · refine frame ⟨rfl, rfl, .inl rfl, ?_, prefix_refl _, prefix_refl _, id, [_], rfl, by simp [Event.quiet]⟩
    cases hm : s.txnMgr.sendRaw _ _ with
    | none => exact .refl _
    | some mgr =>
      rw [Agent.checks, Option.getD_some, TxnMgr.sendRaw_eq_some hm, checksOf_concat, Agent.checks]
      exact (List.append_nil (checksOf s.txnMgr)).symm ▸ .refl _
  · refine head (.frame ?_) (gatherDone _)
    exact Frame.emit s rfl

theorem bindingLoop (hi : ℕ) : ∀ (l : List (Addr × ℕ)) (sent : ℕ) (s : Agent),
    Acts Frame sort e ans suc s (s.bindingLoop sort e hi l sent)
  | [], _, _ => frame (Frame.of_eq rfl rfl)
  | (a, si) :: l, sent, s => by
    unfold Agent.bindingLoop
    split_ifs
    · exact bindingLoop hi l sent s
    · refine trans ?_ (bindingLoop hi l (sent + 1) _)
      refine head (.frame ?_) (sendStunBindingForHost hi si a _)
      exact Frame.of_eq rfl rfl

theorem foldl {α : Type} (f : Agent → α → Agent) (hf : ∀ s a, Acts Frame sort e ans suc s (f s a)) :
    ∀ (l : List α) (s : Agent), Acts Frame sort e ans suc s (l.foldl f s)
  | [], s => refl s
  | a :: l, s => (hf s a).trans (foldl f hf l (f s a))

theorem checkStunDnsDone (s : Agent) : Acts Frame sort e ans suc s (s.checkStunDnsDone sort e) := by
  unfold Agent.checkStunDnsDone
  split_ifs
  · exact refl s
  · exact gatherDone s
  · refine trans ?_ (gatherCheckDone _)
    refine head (.frame ?_) (foldl _ (fun s hi => bindingLoop hi _ 0 s) _ _)
    exact Frame.of_eq rfl rfl

theorem onStunDnsDone (si port : ℕ) (result : Option Addr) (s : Agent) :
    Acts Frame sort e ans suc s (s.onStunDnsDone sort e si port result) := by
  have h1 : ∀ s : Agent, Frame s (s.addStunServer result port) := by
    intro s
    unfold Agent.addStunServer
    split
    · exact .refl s
    · split_ifs
      · exact .refl s
      · exact Frame.of_eq rfl rfl
      · exact .refl s
  unfold Agent.onStunDnsDone
  have h2 : Frame s { s with stunDnsQueries := s.stunDnsQueries.erase (si, port) } := Frame.of_eq rfl rfl
  refine head (.frame ?_) (checkStunDnsDone _)
  refine (h2.trans (h1 _)).trans ?_
  exact Frame.of_eq rfl rfl

/-! ### The TURN server -/

theorem onTurnDnsDone (port : ℕ) (result : Option Addr) (s : Agent) :
    Acts Frame sort e ans suc s (s.onTurnDnsDone sort e port result) := by
  have h1 : Frame s { s with turnDnsQuery := none } := Frame.of_eq rfl rfl
  unfold Agent.onTurnDnsDone
  refine head (.frame h1) ?_
  cases result with
  | none => exact gatherDone _
  | some a =>
    dsimp only
    unfold Agent.startTurnAllocate
    split_ifs
    · exact frame ((Frame.turnClient _ _).trans (Frame.turnSend e .allocate .allocate _))
    · refine head (.frame ?_) (gatherDone _)
      exact Frame.emit _ rfl

theorem onTurnAllocated (relayed : Addr) (mapped : Option Addr) (s : Agent) :
    Acts Frame sort e ans suc s (s.onTurnAllocated sort e relayed mapped) := by
  have h1 : Frame s (s.emit (.gathered s.gatheringDone)) := Frame.emit s rfl
  unfold Agent.onTurnAllocated
  refine head (.frame h1) ?_
  refine trans (head (.frame ?_) (gatherDone _)) (frame (Still.createPermissions e _).frame)
  cases mapped with
  | none => exact Frame.addTurnCandidate .relay 65535 relayed _
  | some a => exact (Frame.addTurnCandidate .srflx 65534 a _).trans (Frame.addTurnCandidate .relay 65535 relayed _)

theorem onTurnFailed (s : Agent) : Acts Frame sort e ans suc s (s.onTurnFailed sort) := by
  exact head (.frame (Frame.turnClient _ s)) (gatherDone _)

theorem onAllocateResponse (msg : Option StunMsg) (s : Agent) :
    Acts Frame sort e ans suc s (s.onAllocateResponse sort e msg) := by
  unfold Agent.onAllocateResponse
  cases s.turnClient with
  | none => exact refl s
  | some tc =>
    cases msg with
    | none => exact onTurnFailed s
    | some m =>
      dsimp only
      split_ifs
      · exact frame ((Frame.turnClient _ s).trans (Frame.turnSend e .allocate .allocate _))
      · exact onTurnFailed s
      · exact head (.frame (Frame.turnClient _ s)) (onTurnFailed _)
      all_goals exact head (.frame (Frame.turnClient _ s)) (onTurnAllocated _ _ _)

theorem onRefreshResponse (msg : Option StunMsg) (s : Agent) :
    Acts Frame sort e ans suc s (s.onRefreshResponse sort msg) := by
  unfold Agent.onRefreshResponse
  cases s.turnClient with
  | none => exact refl s
  | some tc =>
    cases msg with
    | none => exact onTurnFailed s
    | some m =>
      dsimp only
      split_ifs
      · exact onTurnFailed s
      · exact frame (Frame.turnClient _ s)

theorem turnComplete (ctx : TurnCtx) (again : Bool) (msg : Option StunMsg) (s : Agent) :
    Acts Frame sort e ans suc s (s.turnComplete sort e ctx again msg) := by
  refine head (.frame (Frame.emit s (v := .turnResult ctx again ((msg.map StunMsg.isError).getD true)) rfl)) ?_
  cases ctx with
  | allocate => exact onAllocateResponse msg _
  | refresh => exact onRefreshResponse msg _
  | permission => exact refl _

/-! ### Checks -/

theorem sendChecks (pick : Agent → Pair → Bool) : ∀ (l : List ℕ) {s : Agent}, s.state = .checking →
    Acts Still sort e ans suc s (s.sendChecks e pick l)
  | [], s, _ => refl s
  | i :: l, s, hs => by
    unfold Agent.sendChecks
    cases hp : s.pairs[i]? with
    | none => exact sendChecks pick l hs
    | some p =>
      dsimp only
      split_ifs
      · refine head (.send i hs (List.getElem?_eq_some_iff.mp hp).1) (sendChecks pick l ?_)
        rw [sendCheck_state]
        exact hs
      · exact sendChecks pick l hs

theorem checkPacingCb (s : Agent) : Acts Still sort e ans suc s (s.checkPacingCb e) := by
  have h1 : ∀ n, Still s { s with checkIndex := n } := fun n => Still.of_eq rfl rfl rfl rfl
  unfold Agent.checkPacingCb
  split_ifs with hs
  · exact refl s
  cases hn : s.nextToCheck with
  | none => exact head (.frame (h1 _)) (one .tryNominate)
  | some i =>
    have hi : i < s.pairs.length := by
      obtain ⟨k, hk, rfl⟩ := Option.map_eq_some_iff.mp hn
      have := (List.findIdx?_eq_some_iff_getElem.mp hk).1
      rw [length_drop] at this
      omega
    refine head (.frame (h1 (i + 1))) (head (.send i ?_ hi) (frame ?_))
    · exact not_not.mp hs
    · exact Still.scheduleNextCheck _

theorem symmetricKeepaliveCb (s : Agent) : Acts Still sort e ans suc s (s.symmetricKeepaliveCb e) := by
  have h1 : Still s { s with aggressiveTimer := none } := Still.of_eq rfl rfl rfl rfl
  unfold Agent.symmetricKeepaliveCb
  dsimp only
  refine head (.frame h1) ?_
  split_ifs with hs
  · exact refl _
  · exact refl _
  · refine trans (sendChecks _ _ ?_) (frame (Still.armAggressive _ _))
    exact not_not.mp hs

theorem succeeded_of_best (h : s.best.or s.bestPrflx = some i) :
    ∃ p, s.pairs[i]? = some p ∧ p.state = .succeeded := by
  have hfind : ∀ f : Pair → Bool, s.pairs.findIdx? (fun p => p.state = .succeeded && f p) = some i →
      ∃ p, s.pairs[i]? = some p ∧ p.state = .succeeded := by
    intro f hf
    obtain ⟨hi, hp, -⟩ := List.findIdx?_eq_some_iff_getElem.mp hf
    rw [Bool.and_eq_true, decide_eq_true_eq] at hp
    exact ⟨s.pairs[i], List.getElem?_eq_getElem hi, hp.1⟩
  rcases Option.or_eq_some_iff.mp h with h | ⟨-, h⟩
  · exact hfind _ h
  · exact hfind _ h

theorem checkTimeoutCb (s : Agent) : Acts Still sort e ans suc s (s.checkTimeoutCb e) := by
  have h1 : Still s { s with checkTimeout := false } := Still.of_eq rfl rfl rfl rfl
  have h2 : ∀ s : Agent, Still s { s with aggressiveMode := true } := fun s => Still.of_eq rfl rfl rfl rfl
  unfold Agent.checkTimeoutCb
  refine head (.frame h1) ?_
  by_cases hs : s.state = .checking
  swap
  · rw [if_pos hs]
    exact refl _
  rw [if_neg (not_not.mpr hs)]
  by_cases hn : s.nominated = none
  swap
  · rw [if_pos (Option.isSome_iff_ne_none.mpr hn)]
    exact refl _
  rw [if_neg (by simp [hn])]
  cases hb : Option.or _ _ with
  | some i =>
    obtain ⟨p, hp, hsucc⟩ := succeeded_of_best hb
    exact one (.timeoutNominate i p hs hn hp hsucc)
  | none =>
    split_ifs
    · exact one (.spray hs hn)
    · unfold Agent.startSymmetricKeepalive
      split_ifs
      · exact refl _
      · refine head (.frame (h2 _)) (head (.frame (Still.extendCheckTimeout _)) (symmetricKeepaliveCb _))
    · refine head (.frame (Still.cancelAggressive _)) (one (.fail ?_))
      exact hs

theorem sprayBatch : ∀ (n sent : ℕ) {s : Agent}, s.state = .checking →
    Acts Still sort e ans suc s (s.sprayBatch e n sent)
  | 0, _, s, _ => refl s
  | n + 1, sent, s, hs => by
    have h1 : Still s { s with sprayIndex := s.sprayIndex + 1 } := Still.of_eq rfl rfl rfl rfl
    unfold Agent.sprayBatch
    dsimp only
    split_ifs with h
    · exact refl s
    · refine head (.frame h1) (head (.send s.sprayIndex hs ?_) (sprayBatch n _ ?_))
      · show s.sprayIndex < s.pairs.length
        omega
      · rw [sendCheck_state]
        exact hs
    · exact head (.frame h1) (sprayBatch n _ hs)

theorem aggressivePacingCb (s : Agent) : Acts Still sort e ans suc s (s.aggressivePacingCb e) := by
  have h1 : Still s { s with aggressiveTimer := none } := Still.of_eq rfl rfl rfl rfl
  unfold Agent.aggressivePacingCb
  dsimp only
  refine head (.frame h1) ?_
  split_ifs with hs
  · exact refl _
  · exact refl _
  · refine trans (sprayBatch _ _ ?_) (frame (Still.armAggressive _ _))
    exact not_not.mp hs
  · refine sprayBatch _ _ ?_
    exact not_not.mp hs

/-! ### Requests and responses -/

theorem addPrflx (src : Addr) (s : Agent) : Acts Still sort e ans suc s (s.addPrflx src) := by
  unfold Agent.addPrflx
  dsimp only
  split_ifs with h1 h2 h3
  · exact refl s
  · exact refl s
  · refine head (.frame (Still.addRemoteCandidate _ s)) (one (.addPairs _ _ h3 ?_))
    simp
  · exact frame (Still.addRemoteCandidate _ s)

theorem triggerCheck (sock : Sock) (src : Addr) (s : Agent) : Acts Still sort e ans suc s (s.triggerCheck e sock src) := by
  unfold Agent.triggerCheck
  split_ifs with hs
  · exact refl s
  cases ht : s.triggered sock src with
  | none => exact refl s
  | some i =>
    dsimp only
    split_ifs
    · exact one (.send i (not_not.mp hs) (List.findIdx?_eq_some_iff_getElem.mp ht).1)
    · exact refl s

theorem handleRequest {sock : Sock} {src : Addr} {txnId : Bytes} {use : Bool} (ha : ans sock src txnId use)
    (s : Agent) : Acts Still sort e ans suc s (s.handleRequest e sock src txnId use) := by
  have h1 : Acts Still sort e ans suc s
      (s.emit (if e.sendOk s.log.length then .response sock src txnId else .unsent)) := by
    split_ifs
    · exact one (.respond sock src txnId use ha)
    · exact frame (Still.emit s rfl rfl)
  have h2 : ∀ s : Agent, Acts Still sort e ans suc s (if use then s.emit (.useCandidate sock src) else s) := by
    intro s
    split_ifs with hu
    · subst hu
      exact one (.useCandidate sock src txnId ha)
    · exact refl s
  have h3 : ∀ s : Agent, Acts Still sort e ans suc s
      (if use && s.role = .controlled && s.nominated.isNone then s.nominateByPeer src else s) := by
    intro s
    split_ifs with hn
    · simp only [Bool.and_eq_true, decide_eq_true_eq, Option.isNone_iff_eq_none] at hn
      obtain ⟨⟨hu, hr⟩, hn⟩ := hn
      subst hu
      exact one (.peer sock src txnId ha hr hn)
    · exact refl s
  exact h1.trans ((h2 _).trans ((addPrflx src _).trans ((triggerCheck sock src _).trans (h3 _))))

theorem bindings_free {t : Txn Ctx Request} (h : s.txnMgr[i]? = some t) (hb : t.binding = false) :
    (s.txnMgr.free i).countP Txn.binding = s.bindings := by
  have hperm := (TxnMgr.free_perm h).countP_eq Txn.binding
  rw [countP_cons_of_neg (by rw [hb]; decide)] at hperm
  exact hperm

theorem bindings_cancel {t : Txn Ctx Request} (h : s.txnMgr[i]? = some t) (hb : t.binding = false) :
    (s.txnMgr.set i { t with cancelled := true }).countP Txn.binding = s.bindings := by
  obtain ⟨hi, rfl⟩ := List.getElem?_eq_some_iff.mp h
  unfold Agent.bindings
  rw [List.countP_set hi, hb]
  have : ({ s.txnMgr[i] with cancelled := true } : Txn Ctx Request).binding = false := by
    unfold Txn.binding Txn.live
    cases s.txnMgr[i].ctx <;> rfl
  rw [this]
  simp

theorem complete {t : Txn Ctx Request} {mgr : TxnMgr Ctx Request} (hlive : t.cancelled = false)
    (hm : (t.check.toList ++ checksOf mgr).Perm s.checks)
    (hb : t.binding = false → mgr.countP Txn.binding = s.bindings) (msg : Option StunMsg)
    (hsuc : checkResult msg = .success → suc t.txnId) :
    Acts Frame sort e ans suc s ({ s with txnMgr := mgr }.complete sort e t.ctx msg) := by
  cases hc : t.ctx with
  | check i ends =>
    have ht : t.check = some ⟨i, ends, t.txnId, t.sock, t.dest⟩ := by
      unfold Txn.check Txn.live
      rw [hc, hlive]
      rfl
    rw [ht] at hm
    have htb : t.binding = false := by
      unfold Txn.binding
      rw [hc]
    exact one (.result ⟨i, ends, t.txnId, t.sock, t.dest⟩ mgr msg hm (hb htb) hsuc)
  | srflx hi si =>
    have ht : t.check = none := by
      unfold Txn.check
      rw [hc]
    rw [ht] at hm
    exact head (.frame (Frame.table hm)) (onSrflxResponse msg hi si _)

theorem onResponse (msg : StunMsg) (hsuc : msg.isSuccess = true → suc msg.txnId) (s : Agent) :
    Acts Frame sort e ans suc s (s.onResponse sort e msg) := by
  unfold Agent.onResponse
  cases hf : s.txnMgr.find msg.txnId with
  | none => exact refl s
  | some i =>
  dsimp only
  cases ht : s.txnMgr[i]? with
  | none => exact refl s
  | some t =>
    have hm := checksOf_free ht
    dsimp only
    split_ifs with hc
    · have hnone : t.check = none := by
        unfold Txn.check Txn.live
        rw [hc]
        cases t.ctx <;> rfl
      rw [hnone] at hm
      exact head (.frame (Frame.table hm)) (frame (Frame.emit _ rfl))
    · refine complete (by simpa using hc) hm (bindings_free ht) (some msg) (fun hs => ?_)
      have hid : t.txnId = msg.txnId := by
        obtain ⟨hi, hp, -⟩ := List.findIdx?_eq_some_iff_getElem.mp hf
        rw [List.getElem?_eq_getElem hi] at ht
        injection ht with ht
        rw [← ht]
        exact of_decide_eq_true hp
      rw [hid]
      refine hsuc ?_
      unfold checkResult at hs
      dsimp only at hs
      split_ifs at hs with h
      exact h

theorem turnOnResponse {msg : StunMsg} (h : s.turnOnResponse sort e msg = some t) : Acts Frame sort e ans suc s t := by
  unfold Agent.turnOnResponse at h
  split at h
  · exact absurd h (by simp)
  split at h
  · exact absurd h (by simp)
  split at h
  · exact absurd h (by simp)
  · injection h with h
    subst h
    exact head (.frame (Frame.turnClient _ s)) (turnComplete _ _ _ _)

theorem resend {t : Txn Ctx Request} (h : ∀ c, t.check = some c → c ∈ s.checks) :
    Acts Still sort e ans suc s (s.resend e t) := by
  have hunsent : Acts Still sort e ans suc s (s.emit .unsent) := frame (Still.emit s rfl rfl)
  unfold Agent.resend
  split
  · next c use sock hck hmsg hsock =>
    split_ifs
    · refine one (.again c sock use (h c hck) ?_)
      unfold Txn.check at hck
      split at hck
      · split_ifs at hck
        injection hck with hck
        rw [← hck]
        exact hsock
      · exact absurd hck (by simp)
    · exact hunsent
  · exact hunsent

theorem onRetransmit (i : ℕ) (s : Agent) : Acts Frame sort e ans suc s (s.onRetransmit sort e i) := by
  unfold Agent.onRetransmit TxnMgr.retransmit
  cases ht : s.txnMgr[i]? with
  | none => exact refl s
  | some t =>
    dsimp only
    split_ifs with hc hr
    · exact refl s
    · have hm := checksOf_set (u := { t with cancelled := true }) ht
      have hnone : ({ t with cancelled := true } : Txn Ctx Request).check = none := by
        cases t.ctx <;> rfl
      rw [hnone] at hm
      exact complete (by simpa using hc) hm (bindings_cancel ht) none (fun h => absurd h (by decide))
    · have hm := checksOf_set (u := { t with retransmitCount := t.retransmitCount + 1 }) ht
      have hsame : ({ t with retransmitCount := t.retransmitCount + 1 } : Txn Ctx Request).check = t.check := rfl
      have hm := (perm_append_left_iff _).mp hm
      refine head (.frame (Frame.table hm)) (weaken (resend (fun c hck => ?_)))
      refine hm.mem_iff.mpr ?_
      exact mem_filterMap.mpr ⟨t, mem_of_getElem? ht, hck⟩

theorem onTurnRetransmit (i : ℕ) (s : Agent) : Acts Frame sort e ans suc s (s.onTurnRetransmit sort e i) := by
  unfold Agent.onTurnRetransmit
  cases s.turnClient with
  | none => exact refl s
  | some tc =>
    dsimp only
    split
    · exact refl s
    · exact head (.frame (Frame.turnClient _ s)) (turnComplete _ _ _ _)
    · exact frame (Frame.turnClient _ s)

/-! ### Calls -/

theorem gather (ifaces : Option (List Iface)) (s : Agent) : Acts Frame sort e ans suc s (s.gather sort e ifaces) := by
  have hstate : ∀ (u v : AgentState) (s : Agent), s.state = u → (u = .new ∨ u = .gathering) →
      (v = .gathering ∨ v = .failed) → Frame s (s.setState v) := by
    intro u v s hs hu hv
    refine ⟨rfl, rfl, .inr ⟨hs ▸ hu, hv⟩, .refl _, prefix_refl _, prefix_refl _, id, ?_⟩
    by_cases h : s.state = v
    · exact ⟨[], if_pos h, by simp⟩
    · exact ⟨[.state v], if_neg h, by simp [Event.quiet]⟩
  have hloop : ∀ (l : List Iface) (k : ℕ) (s : Agent), Frame s (s.hostLoop k l) ∧ (s.hostLoop k l).state = s.state := by
    intro l
    induction l with
    | nil => exact fun k s => ⟨.refl s, rfl⟩
    | cons i l ih =>
      intro k s
      unfold Agent.hostLoop
      split_ifs
      · exact ih k s
      · exact ⟨.refl s, rfl⟩
      · cases i.sock with
        | none => exact ih k s
        | some sock =>
          have hadd : ∀ c, (s.addLocal c).state = s.state := by
            intro c
            unfold Agent.addLocal
            split_ifs <;> rfl
          obtain ⟨h1, h2⟩ := ih (k + 1) (s.addLocal
            { type := .host, priority := candidatePriority .host (65535 - k), addr := i.addr, sock := some sock })
          exact ⟨(Frame.addLocal _ s).trans h1, h2.trans (hadd _)⟩
  unfold Agent.gather
  by_cases hs : s.state = .new
  swap
  · rw [if_pos hs]
    exact refl s
  rw [if_neg (not_not.mpr hs)]
  refine head (.frame (hstate .new .gathering s hs (.inl rfl) (.inl rfl))) ?_
  cases ifaces with
  | none => exact frame (hstate .gathering .failed _ rfl (.inr rfl) (.inr rfl))
  | some is =>
    obtain ⟨h1, h2⟩ := hloop is 0 (s.setState .gathering)
    have h3 : Frame (s.setState .gathering) ((s.setState .gathering).gatherHosts is) :=
      h1.trans (Frame.of_eq rfl rfl)
    have h4 : ∀ s : Agent, Frame s (s.startQueries e) := fun s => Frame.of_eq rfl rfl
    refine head (.frame h3) ?_
    dsimp only
    by_cases hc : ((s.setState .gathering).gatherHosts is).hostCount = 0
    · rw [if_pos hc]
      exact frame (hstate .gathering .failed _ h2 (.inr rfl) (.inr rfl))
    · rw [if_neg hc]
      unfold Agent.gatherServers
      refine head (.frame (h4 _)) ?_
      dsimp only
      split_ifs
      · exact gatherCheckDone _
      · exact frame ((Frame.arm .gather _).trans (Frame.of_eq rfl rfl))

theorem setRemoteDescription (d : Description) (s : Agent) :
    Acts Still sort e ans suc s (s.setRemoteDescription sort e d) := by
  have h1 : Still s { s with remoteUfrag := d.iceUfrag, remotePwd := d.icePwd, remoteSet := true } :=
    Still.of_eq rfl rfl rfl rfl
  have h2 := (h1.trans (Still.addRemotes d.candidates _)).trans (Still.createPermissions e _)
  unfold Agent.setRemoteDescription
  refine head (.frame h2) ?_
  dsimp only
  split_ifs with h
  · exact one (.restart h.2 h.1)
  · exact refl _

theorem trickle {r : ℕ} (hr : r < s.remoteCandidates.length) : Acts Still sort e ans suc s (s.trickle e r) := by
  unfold Agent.trickle
  split_ifs with h
  · exact head (.addPairs (fun _ => true) r h hr) (sendChecks _ _ h)
  · exact refl s

theorem restartFailed (s : Agent) : Acts Still sort e ans suc s (s.restartFailed sort) := by
  unfold Agent.restartFailed
  split_ifs with h
  · exact one (.restartFailed h.1 h.2)
  · exact refl s

theorem addRemoteCandidate (c : Candidate) (s : Agent) :
    Acts Still sort e ans suc s (s.addRemoteCandidate sort e c) := by
  unfold Agent.addRemoteCandidate
  split_ifs
  · exact refl s
  · exact refl s
  · have h1 := (Still.addRemoteCandidate c s).trans (Still.createPermission e c.addr _)
    refine head (.frame h1) ((trickle ?_).trans (restartFailed _))
    have h2 := (Still.createPermission e c.addr { s with remoteCandidates := s.remoteCandidates ++ [c] }).frame.remotes
    have := h2.length_le
    simp only [length_append, length_singleton] at this
    omega

/-! ### Steps -/

theorem onCheckTimer {k : Timer} (hk : k ≠ .gather) (s : Agent) :
    Acts Still sort e ans suc s ({ s with timers := s.timers.erase k }.onTimer sort e k) := by
  cases k with
  | gather => exact absurd rfl hk
  | check => exact head (.frame (Still.erase (k := .check) (by decide) (by decide) s)) (checkPacingCb _)
  | checkTimeout =>
    exact head (.frame (Still.erase (k := .checkTimeout) (by decide) (by decide) s)) (checkTimeoutCb _)
  | consent => exact one .consent
  | aggressive cb =>
    refine head (.frame (Still.erase (k := .aggressive cb) (by simp) (by simp) s)) ?_
    cases cb with
    | spray => exact aggressivePacingCb _
    | keepalive => exact symmetricKeepaliveCb _

theorem onTimer {k : Timer} (s : Agent) :
    Acts Frame sort e ans suc s ({ s with timers := s.timers.erase k }.onTimer sort e k) := by
  by_cases hk : k = .gather
  swap
  · exact weaken (onCheckTimer hk s)
  · subst hk
    have h1 : ∀ s : Agent, Frame s { s with gatherTimer := false } := fun s => Frame.of_eq rfl rfl
    refine head (.frame ((Frame.erase (k := .gather) (by decide) s).trans (h1 _))) ?_
    show Acts Frame sort e ans suc _ (Agent.gatherTimeoutCb sort _)
    unfold Agent.gatherTimeoutCb
    dsimp only
    split_ifs with hs
    · exact refl _
    · refine endGathering true ?_
      have hs : s.state = .gathering := not_not.mp hs
      show s.state ≠ .checking
      rw [hs]
      decide

end Acts

/-- The requests and the successes a datagram stands for. -/
def accepts (hmac : Bytes → Bytes → Bytes) (s : Agent) (m : Input) (sock : Sock) (src : Addr) (txnId : Bytes)
    (use : Bool) : Prop :=
  ∃ datagram msg, m = .recv sock src datagram ∧ decode (datagram.take 2048) = some msg ∧ msg.isRequest = true ∧
    s.validate hmac msg (datagram.take 2048) = true ∧ msg.txnId = txnId ∧
    use = (msg.first attrUseCandidate).isSome

def succeeds (m : Input) (txnId : Bytes) : Prop :=
  ∃ sock src datagram msg, m = .recv sock src datagram ∧ decode (datagram.take 2048) = some msg ∧
    msg.isSuccess = true ∧ msg.txnId = txnId

theorem acts_onUdpRecv {hmac : Bytes → Bytes → Bytes} (sock : Sock) (src : Addr) (datagram : Bytes) (s : Agent) :
    Acts Frame sort e (s.accepts hmac (.recv sock src datagram)) (succeeds (.recv sock src datagram)) s
      (s.onUdpRecv sort e hmac sock src datagram) := by
  unfold Agent.onUdpRecv
  dsimp only
  split_ifs
  · exact .refl s
  cases hd : decode (datagram.take 2048) with
  | none => exact .refl s
  | some msg =>
    dsimp only
    split_ifs with hreq hval hind
    · exact Acts.weaken (Acts.handleRequest ⟨datagram, msg, rfl, hd, hreq, hval, rfl, rfl⟩ s)
    · exact .refl s
    · exact .refl s
    · cases ht : s.turnOnResponse sort e msg with
      | none => exact Acts.onResponse msg (fun h => ⟨sock, src, datagram, msg, rfl, hd, h, rfl⟩) s
      | some t => exact Acts.turnOnResponse ht

/-- **Every step is a chain of acts.** -/
theorem acts_of_step {hmac : Bytes → Bytes → Bytes} {m : Env × Input} (h : step sort hmac s m = some t) :
    Acts Frame sort m.1 (s.accepts hmac m.2) (succeeds m.2) s t := by
  obtain ⟨e, m⟩ := m
  unfold Agent.step at h
  cases m with
  | gather ifaces =>
    injection h with h
    exact h ▸ Acts.gather ifaces s
  | setRemoteDescription d =>
    injection h with h
    exact h ▸ Acts.weaken (Acts.setRemoteDescription d s)
  | addRemoteCandidate c =>
    injection h with h
    exact h ▸ Acts.weaken (Acts.addRemoteCandidate c s)
  | setRole r =>
    injection h with h
    exact h ▸ Acts.frame (Frame.of_eq rfl rfl)
  | recv sock src datagram =>
    injection h with h
    exact h ▸ acts_onUdpRecv sock src datagram s
  | retransmit i =>
    injection h with h
    exact h ▸ Acts.onRetransmit i s
  | turnRetransmit i =>
    injection h with h
    exact h ▸ Acts.onTurnRetransmit i s
  | timer k =>
    dsimp only at h
    split_ifs at h
    injection h with h
    exact h ▸ Acts.onTimer s
  | turnRefresh =>
    split_ifs at h
    injection h with h
    exact h ▸ Acts.frame (Still.refreshTimerCb e s).frame
  | stunDns si port result =>
    dsimp only at h
    split_ifs at h
    injection h with h
    exact h ▸ Acts.onStunDnsDone si port result s
  | turnDns port result =>
    dsimp only at h
    split_ifs at h
    injection h with h
    exact h ▸ Acts.onTurnDnsDone port result s

end Agent

end Libx.Ice
