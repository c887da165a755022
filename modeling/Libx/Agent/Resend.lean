import Libx.Agent.Retry

/-!
# Libx.Agent.Resend — whose text the retry after a compact sends

The gate saves the text of a message before it can still refuse the message, and a message without
text leaves what was saved before.
-/

namespace Libx.Agent

open Libx.Core State

/-! ### What an input saves -/

/-- **The gate comes to the saving of the text**: the message is over the budget before and after
trimming, and there is something to compact. -/
def saves (conf : Conf) (cs : List Content) (env : InputEnv) (x : Session) : Prop :=
  overBudget conf cs x ∧ overBudget conf cs (sessionTrim env.trimOk x) ∧
    ¬ cannotCompact conf (sessionTrim env.trimOk x)

/-- The message has text, and the copy of it is allocated. -/
def copied (cs : List Content) (env : InputEnv) : Prop := textOf cs ≠ [] ∧ env.saveOk = true

instance (conf : Conf) (cs : List Content) (env : InputEnv) (x : Session) : Decidable (saves conf cs env x) :=
  haveI : Decidable (cannotCompact conf (sessionTrim env.trimOk x)) :=
    inferInstanceAs (Decidable (_ ∨ _ ∨ _ ∨ _ ∨ _))
  inferInstanceAs (Decidable (_ ∧ _ ∧ _))

instance (cs : List Content) (env : InputEnv) : Decidable (copied cs env) :=
  inferInstanceAs (Decidable (_ ∧ _))

variable {conf : Conf} {msgs : List Message}

theorem viewOk_of_ok {memText : Option Bytes} {hist : List Slot} {viewOk : Bool} (h : sessInputViewBuild conf memText hist viewOk = .ok msgs) : viewOk = true := by
  by_contra hv
  unfold sessInputViewBuild at h
  dsimp only at h
  rw [if_pos (show (!viewOk) = true by simpa using hv)] at h
  generalize (_ ++ view (entries hist) : List Message) = ms at h
  split_ifs at h

variable {cs : List Content} {env : InputEnv}

theorem savePending_of_copied (h : copied cs env) (x : Session) :
    (savePending env.saveOk cs x).pendingText = some (textOf cs) := by
  have he : savePending env.saveOk cs x = { x with pendingText := some (textOf cs) } := if_pos h
  rw [he]

theorem savePending_of_not (h : ¬ copied cs env) (x : Session) :
    savePending env.saveOk cs x = x := if_neg h

theorem sessionTrim_pendingText (ok : ℕ → Bool) (x : Session) : (sessionTrim ok x).pendingText = x.pendingText := by
  unfold sessionTrim
  split_ifs <;> rfl

theorem effectiveLimit_trim (conf : Conf) (ok : ℕ → Bool) (x : Session) :
    effectiveLimit conf (sessionTrim ok x) = effectiveLimit conf x := by
  unfold sessionTrim
  split_ifs <;> rfl

/-- **The Summarize branch** leaves the pending text, or comes to the saving. -/
theorem summarizeBranch_pending {x : Session}
    (hp : conf.policy ≠ .error) :
    (summarizeBranch conf cs env x).session.pendingText = x.pendingText ∨
      ¬ cannotCompact conf x ∧ copied cs env := by
  by_cases hcan : cannotCompact conf x
  · obtain ⟨rc, he⟩ := summarizeBranch_refuse cs env hp hcan
    rw [he]
    exact .inl rfl
  by_cases hcopy : copied cs env
  · exact .inr ⟨hcan, hcopy⟩
  left
  unfold summarizeBranch
  rw [savePending_of_not hcopy]
  dsimp only
  split
  · rfl
  split
  · rfl
  split
  · rfl
  split
  · rfl
  split
  · rfl
  split
  · rfl
  split
  · rfl
  · rfl

theorem summarizeBranch_launched {x y : Session} (hp : conf.policy ≠ .error) (h : summarizeBranch conf cs env x = .launch y msgs) :
    ¬ cannotCompact conf x ∧ env.compactViewOk = true ∧ env.compactMsgsOk = true ∧
      (copied cs env → y.pendingText = some (textOf cs)) := by
  have hcan : ¬ cannotCompact conf x := by
    intro hcan
    obtain ⟨rc, he⟩ := summarizeBranch_refuse cs env hp hcan
    exact absurd (he.symm.trans h) nofun
  unfold summarizeBranch at h
  dsimp only at h
  split at h
  · injection h
  split at h
  · injection h
  split at h
  · injection h
  split at h
  · injection h
  split at h
  · injection h
  split at h
  · injection h
  next hv =>
  split at h
  · injection h
  next hmsgs =>
  injection h with h _
  refine ⟨hcan, ?_, by simpa using hmsgs, fun hcopy => ?_⟩
  · exact viewOk_of_ok hv
  · rw [← h]
    exact savePending_of_copied hcopy x

/-- **The gate** leaves the pending text, or comes to the saving. -/
theorem gate_pending (conf : Conf) (cs : List Content) (env : InputEnv) (x : Session) :
    (sessionEnforceBudget conf cs env x).session.pendingText = x.pendingText ∨
      saves conf cs env x ∧ copied cs env := by
  by_cases ho : overBudget conf cs x
  · obtain ⟨hp, hlt⟩ := ho
    have hle : ¬ gateEstimate x cs ≤ effectiveLimit conf x := by omega
    unfold sessionEnforceBudget
    dsimp only
    rw [if_neg hp, if_neg hle]
    split
    · exact .inl (sessionTrim_pendingText env.trimOk x)
    next htrim =>
    have hover : overBudget conf cs (sessionTrim env.trimOk x) := by
      refine ⟨hp, ?_⟩
      rw [effectiveLimit_trim]
      omega
    cases hpol : conf.policy with
    | disabled | error => exact .inl (sessionTrim_pendingText env.trimOk x)
    | summarize =>
      have hpend : (summarizeBranch conf cs env (sessionTrim env.trimOk x)).session.pendingText =
          (sessionTrim env.trimOk x).pendingText ∨
          ¬ cannotCompact conf (sessionTrim env.trimOk x) ∧ copied cs env :=
        summarizeBranch_pending (by rw [hpol]; decide)
      rcases hpend with h | ⟨h1, h2⟩
      · exact .inl (h.trans (sessionTrim_pendingText env.trimOk x))
      · exact .inr ⟨⟨⟨hp, hlt⟩, hover, h1⟩, h2⟩
  · rw [gate_pass env ho]
    left
    show (if _ then _ else _ : Session).pendingText = _
    split_ifs <;> rfl

theorem gate_launched {x y : Session} (h : sessionEnforceBudget conf cs env x = .launch y msgs) :
    saves conf cs env x ∧ env.compactViewOk = true ∧ env.compactMsgsOk = true ∧
      (copied cs env → y.pendingText = some (textOf cs)) := by
  have ho : overBudget conf cs x := by
    by_contra ho
    exact absurd ((gate_pass env ho).symm.trans h) nofun
  obtain ⟨hp, hlt⟩ := ho
  have hle : ¬ gateEstimate x cs ≤ effectiveLimit conf x := by omega
  unfold sessionEnforceBudget at h
  dsimp only at h
  rw [if_neg hp, if_neg hle] at h
  split at h
  · exact absurd h nofun
  next htrim =>
  have hover : overBudget conf cs (sessionTrim env.trimOk x) := by
    refine ⟨hp, ?_⟩
    rw [effectiveLimit_trim]
    omega
  cases hpol : conf.policy with
  | disabled => exact absurd hpol hp
  | error =>
    rw [hpol] at h
    exact absurd h nofun
  | summarize =>
    rw [hpol] at h
    obtain ⟨h1, h2⟩ := summarizeBranch_launched (by rw [hpol]; decide) h
    exact ⟨⟨⟨hp, hlt⟩, hover, h1⟩, h2⟩

def State.stores (s : State) (msg : Message) (env : InputEnv) : Prop :=
  s.busy = false ∧ saves s.conf msg.contents env s.sess ∧ copied msg.contents env

/-- The input launches a compact: it comes to the saving, and nothing that follows fails. -/
def State.compacts (s : State) (msg : Message) (env : InputEnv) : Prop :=
  s.busy = false ∧ saves s.conf msg.contents env s.sess ∧ env.compactViewOk = true ∧
    env.compactMsgsOk = true ∧ env.createOk = true ∧ env.copyOk = true ∧ env.submitRc = .ok

instance (s : State) (msg : Message) (env : InputEnv) : Decidable (s.stores msg env) :=
  inferInstanceAs (Decidable (_ ∧ _ ∧ _))

instance (s : State) (msg : Message) (env : InputEnv) : Decidable (s.compacts msg env) :=
  inferInstanceAs (Decidable (_ ∧ _ ∧ _ ∧ _ ∧ _ ∧ _ ∧ _))

/-- What an input does to the pending text and the compact under way. -/
inductive Saved (msg : Message) (env : InputEnv) (s : State) : State → Prop
  | kept {t : State} : t.sess.compacting = s.sess.compacting →
      (t.sess.pendingText = s.sess.pendingText ∨ s.stores msg env) → Saved msg env s t
  | launched {t : State} : s.sess.compacting = false → t.sess.compacting = true → s.compacts msg env →
      (t.sess.pendingText = s.sess.pendingText ∨ s.stores msg env) →
      (s.stores msg env → t.sess.pendingText = some (textOf msg.contents)) → Saved msg env s t

theorem queryRun_user_sess (checkpoint : ℕ) (auto : Bool) (maxTurns : ℤ) (msgs : List Message)
    (env : InputEnv) (s : State) :
    ((s.create true maxTurns).queryRun (.user checkpoint auto) msgs env).sess.pendingText =
        s.sess.pendingText ∧
      ((s.create true maxTurns).queryRun (.user checkpoint auto) msgs env).sess.compacting =
        s.sess.compacting := by
  rcases queryRun_cases true maxTurns (.user checkpoint auto) msgs env s with
    ⟨rc, u, hu, -, -, he, -⟩ | ⟨hl, -, -⟩
  · have hs : u.sess = s.sess := congrArg Ledger.sess hu
    rw [he, ← hs]
    exact ⟨rfl, rfl⟩
  · have hs := congrArg Ledger.sess hl
    exact ⟨congrArg Session.pendingText hs, congrArg Session.compacting hs⟩

theorem acceptInput_sess (auto : Bool) (msg : Message) (env : InputEnv) (s : State) :
    (s.acceptInput auto msg env).sess.pendingText = s.sess.pendingText ∧
      (s.acceptInput auto msg env).sess.compacting = s.sess.compacting := by
  unfold State.acceptInput
  dsimp only
  split
  · exact ⟨rfl, rfl⟩
  split
  · exact ⟨rfl, rfl⟩
  split
  · exact ⟨rfl, rfl⟩
  · exact queryRun_user_sess _ auto _ _ env _

/-- **What an input saves.** -/
theorem sessionInput_saved (auto : Bool) (msg : Message) (env : InputEnv) (s : State) :
    Saved msg env s (s.sessionInput auto msg env) := by
  unfold State.sessionInput
  split
  · exact .kept rfl (.inl rfl)
  next hb =>
  have hb' : s.busy = false := by simpa [State.busy] using hb
  have hc : s.sess.compacting = false := (Bool.or_eq_false_iff.mp hb').2
  have hpend := gate_pending s.conf msg.contents env s.sess
  have hgate := gate_session s.conf msg.contents env s.sess
  have hstores : saves s.conf msg.contents env s.sess ∧ copied msg.contents env → s.stores msg env :=
    fun h => ⟨hb', h.1, h.2⟩
  split
  · next rc x hg =>
    rw [hg] at hpend hgate
    exact .kept (Gated.compacting hgate) (hpend.imp id hstores)
  · next x msgs hg =>
    rw [hg] at hpend hgate
    have hxc : x.compacting = false := (Gated.compacting hgate).trans hc
    obtain ⟨hsaves, hview, hmsgs, htext⟩ := gate_launched hg
    split
    · exact .kept (hxc.trans hc.symm) (hpend.imp id hstores)
    next hcreate =>
    rcases queryRun_cases false 1 (.compact auto) msgs env { s with sess := { x with compacting := true } } with
      ⟨rc, u, hu, -, -, he, -⟩ | ⟨hl, -, hcopy, -, hrc⟩
    · have hs : u.sess = { x with compacting := true } := congrArg Ledger.sess hu
      have hp : (u.runFailed (.compact auto) rc).sess.pendingText = x.pendingText := by
        show u.sess.pendingText = x.pendingText
        rw [hs]
      refine .kept ?_ ?_
      · rw [he, hc]
        rfl
      · rw [he, hp]
        exact hpend.imp id hstores
    · have hs := congrArg Ledger.sess hl
      have hp := congrArg Session.pendingText hs
      refine .launched hc (congrArg Session.compacting hs)
        ⟨hb', hsaves, hview, hmsgs, by simpa using hcreate, hcopy, hrc⟩ ?_ fun h => ?_
      · rcases hpend with h | h
        · exact .inl (hp.trans h)
        · exact .inr (hstores h)
      · exact hp.trans (htext h.2.2)
  · next x hg =>
    rw [hg] at hpend hgate
    obtain ⟨h1, h2⟩ := acceptInput_sess auto msg env { s with sess := x }
    refine .kept (h2.trans (Gated.compacting hgate)) ?_
    rw [h1]
    exact hpend.imp id hstores

/-! ### What the retry sends -/

/-- A session, the text of the message that launched the compact under way, the texts of those whose
`CompactDone` callbacks are in progress, innermost first, and the texts sent again, each with the text
of the message that launched the compact it follows. -/
structure Resends where
  s : State
  launched : Bytes := []
  ended : List Bytes := []
  resent : List (Bytes × Bytes) := []

/-- The step is the return of a `CompactDone` callback. -/
def announced (s : State) (l : Label) : Bool :=
  match l.move, s.stack with
  | .ret, .compactDone :: _ => true
  | _, _ => false

namespace Resends

variable {w w' : Resends} {l : Label}

/-- The records after a step to `t`. -/
def after (w : Resends) (l : Label) (t : State) : Resends :=
  let ended := if announced w.s l then w.ended.tail else w.ended
  { s := t
    launched :=
      match incoming w.s l with
      | some (msg, _) => if launches w.s t = 1 then textOf msg.contents else w.launched
      | none => w.launched
    ended := if dones w.s < dones t then w.launched :: ended else ended
    resent :=
      match announced w.s l, w.s.sess.pendingText with
      | true, some text => w.resent ++ [(text, w.ended.headD [])]
      | _, _ => w.resent }

def step (w : Resends) (l : Label) : Option Resends := (Libx.Agent.step w.s l).map (w.after l)

/-- **The text sent after a compact is the text of the message that launched it.** -/
def Own (w : Resends) : Prop := ∀ p ∈ w.resent, p.1 = p.2

/-- The condition: an input saves its text only when no `CompactDone` callback is in progress, and one
that launches a compact saves its text or finds nothing saved. -/
def Clean (w : Resends) (l : Label) : Prop :=
  ∀ p ∈ incoming w.s l, (p.2.stores p.1 l.env → dones p.2 = 0) ∧
    (p.2.compacts p.1 l.env → p.2.stores p.1 l.env ∨ p.2.sess.pendingText = none)

instance (w : Resends) (l : Label) : Decidable (w.Clean l) :=
  inferInstanceAs (Decidable (∀ p ∈ incoming w.s l, _))

/-! ### The invariant -/

/-- What is pending is the text of the message that launched the compact under way, or of the one whose
`CompactDone` callback is the innermost. -/
structure Fresh (w : Resends) : Prop where
  during : w.s.sess.compacting = true → w.s.sess.pendingText = none ∨
    dones w.s = 0 ∧ w.s.sess.pendingText = some w.launched
  announcing : w.s.sess.compacting = false → 0 < dones w.s → w.s.sess.pendingText = none ∨
    w.s.sess.pendingText = some (w.ended.headD [])
  own : w.Own

end Resends

theorem endRun_pendingText (reason : DoneReason) (env : InputEnv) (s : State) :
    (s.endRun reason env).sess.pendingText = s.sess.pendingText := by
  have he : (s.endRun reason env).sess = (s.endRun reason env).ledger.sess := rfl
  rw [he]
  rcases endRun_ledger reason env s with ⟨-, z, -, -, hl⟩ | ⟨-, hl⟩ | ⟨-, hl⟩
  all_goals
    rw [hl]
    rfl

variable {s t : State}

theorem pending_of_step {l : Label} (hs : step s l = some t) (hi : incoming s l = none) :
    (t.sess.pendingText = s.sess.pendingText ∨ t.sess.pendingText = none) ∧
      (t.sess.compacting = true → s.sess.compacting = true) := by
  cases effect_of_step hs with
  | settles hset =>
    cases hset with
    | quiet hq =>
      rw [hq.sess]
      exact ⟨.inl rfl, id⟩
    | ended reason hq _ =>
      refine ⟨.inl ?_, fun h => ?_⟩
      · rw [endRun_pendingText, hq.sess]
      · rw [endRun_compacting] at h
        exact absurd h (by simp)
    | finished hq _ _ =>
      have hs := hq.sess
      exact ⟨.inl (congrArg Session.pendingText hs), fun h => (congrArg Session.compacting hs).symm.trans h⟩
  | received msg _ hi' _ => exact absurd (hi.symm.trans hi') nofun
  | window n => exact ⟨.inl rfl, id⟩
  | create n _ _ => exact ⟨.inr rfl, fun h => absurd h (by simp [createSession])⟩

/-- A message that is handed on comes from outside, or is the pending text behind a `CompactDone`
callback that returns. -/
theorem incoming_cases {s₀ : State} {l : Label} {msg : Message} (hs : step s l = some t)
    (hi : incoming s l = some (msg, s₀)) :
    Saved msg l.env s₀ t ∧ dones t = dones s₀ ∧
      (announced s l = false ∧ s₀ = s ∨
        announced s l = true ∧ 0 < dones s ∧ s₀.sess = { s.sess with pendingText := none } ∧
          s.sess.pendingText = some (textOf msg.contents)) := by
  obtain ⟨m, env⟩ := l
  cases took_of_step hs with
  | input m _ =>
    injection hi with hi
    injection hi with hm hs₀
    subst hm hs₀
    exact ⟨sessionInput_saved false m env s, Rings.sessionInput false m env s, .inl ⟨rfl, rfl⟩⟩
  | retCompactDone rest hst _ =>
    unfold incoming at hi
    rw [hst] at hi
    cases hp : s.sess.pendingText with
    | none =>
      rw [hp] at hi
      exact absurd hi nofun
    | some text =>
      rw [hp] at hi
      injection hi with hi
      injection hi with hm hs₀
      subst hm hs₀
      have he : State.autoRetryPending env { s with stack := rest } =
          State.sessionInput true ⟨.user, [.text text]⟩ env
            { s with stack := rest, sess := { s.sess with pendingText := none } } := by
        unfold State.autoRetryPending
        rw [hp]
      rw [he]
      refine ⟨sessionInput_saved true _ env _, Rings.sessionInput true _ env _, .inr ⟨?_, ?_, rfl, ?_⟩⟩
      · unfold announced
        rw [hst]
      · rw [dones, hst, List.count_cons_self]
        omega
      · exact congrArg some (List.append_nil text).symm
  | retSubmit _ _ hst | retConfirm _ _ hst | retToolStart _ _ _ hst | retToolDone _ _ hst | retCompleteDone _ hst
  | retErrFinish _ _ hst | retProvErr _ _ hst | retProvCancel _ _ hst _ | retCancelTool _ _ _ hst _
  | retSessDone _ hst => simp [incoming, hst] at hi
  | _ => simp [incoming] at hi

theorem pending_of_announced {l : Label} (ha : announced s l = true) (hi : incoming s l = none) :
    s.sess.pendingText = none := by
  unfold announced at ha
  split at ha
  · next hm hst =>
    unfold incoming at hi
    rw [hm, hst] at hi
    cases hp : s.sess.pendingText with
    | none => rfl
    | some text =>
      rw [hp] at hi
      exact absurd hi nofun
  · exact absurd ha nofun

theorem launches_eq_one (hs : s.sess.compacting = false) (ht : t.sess.compacting = true) :
    launches s t = 1 := if_pos ⟨hs, ht⟩

theorem launches_ne_one (h : t.sess.compacting = s.sess.compacting) : launches s t ≠ 1 := by
  unfold launches
  rw [h, if_neg]
  · decide
  · rintro ⟨h1, h2⟩
    exact absurd (h1.symm.trans h2) nofun

namespace Resends

variable {w w' : Resends} {l : Label}

theorem Fresh.quiet (h : Fresh w) (hs : Libx.Agent.step w.s l = some t)
    (hi : incoming w.s l = none) : Fresh (w.after l t) := by
  obtain ⟨hpend, hcomp⟩ := pending_of_step hs hi
  have hring := rings_of_step hs
  have hnone : w.s.sess.pendingText = none → t.sess.pendingText = none := by
    intro hp
    rcases hpend with h | h
    · exact h.trans hp
    · exact h
  have hkeep : ∀ {x : Bytes}, w.s.sess.pendingText = some x →
      t.sess.pendingText = none ∨ t.sess.pendingText = some x := by
    intro x hx
    rcases hpend with h | h
    · exact .inr (h.trans hx)
    · exact .inl h
  have hlaunched : (w.after l t).launched = w.launched := by
    unfold after
    rw [hi]
  refine ⟨fun hc => ?_, fun hc hpos => ?_, ?_⟩
  · show t.sess.pendingText = none ∨ dones t = 0 ∧ _
    have hle : dones t ≤ dones w.s := by
      rcases hring with hle | ⟨-, -, -, htc⟩
      · exact hle
      · exact absurd (htc.symm.trans hc) nofun
    rcases h.during (hcomp hc) with hp | ⟨hzero, hp⟩
    · exact .inl (hnone hp)
    · rw [hlaunched]
      rcases hkeep hp with hp' | hp'
      · exact .inl hp'
      · exact .inr ⟨by omega, hp'⟩
  · show t.sess.pendingText = none ∨ _
    have hpos : 0 < dones t := hpos
    by_cases ha : announced w.s l = true
    · exact .inl (hnone (pending_of_announced ha hi))
    by_cases hd : dones w.s < dones t
    · -- a compact has ended
      have hended : (w.after l t).ended.headD [] = w.launched := by
        unfold after
        dsimp only
        rw [if_pos hd]
        rfl
      rw [hended]
      rcases hring with hle | ⟨-, hsc, -, -⟩
      · omega
      rcases h.during hsc with hp | ⟨-, hp⟩
      · exact .inl (hnone hp)
      · exact hkeep hp
    · have hended : (w.after l t).ended = w.ended := by
        unfold after
        dsimp only
        rw [if_neg hd, if_neg ha]
      rw [hended]
      cases hsc : w.s.sess.compacting with
      | true =>
        rcases h.during hsc with hp | ⟨hzero, -⟩
        · exact .inl (hnone hp)
        · omega
      | false =>
        rcases h.announcing hsc (by omega) with hp | hp
        · exact .inl (hnone hp)
        · exact hkeep hp
  · have hresent : (w.after l t).resent = w.resent := by
      unfold after
      cases ha : announced w.s l with
      | false => rfl
      | true => rw [pending_of_announced ha hi]
    unfold Own
    rw [hresent]
    exact h.own

theorem Fresh.handed {s₀ : State} {msg : Message} (h : Fresh w) (hok : w.Clean l)
    (hs : Libx.Agent.step w.s l = some t) (hi : incoming w.s l = some (msg, s₀)) : Fresh (w.after l t) := by
  obtain ⟨hsaved, hdones, hfrom⟩ := incoming_cases hs hi
  obtain ⟨hstores, hcompacts⟩ := hok (msg, s₀) hi
  have hcomp : s₀.sess.compacting = w.s.sess.compacting := by
    rcases hfrom with ⟨-, rfl⟩ | ⟨-, -, he, -⟩
    · rfl
    · rw [he]
  have hle : dones s₀ ≤ dones w.s := by
    rcases dones_of_incoming hs hi with ⟨-, hd⟩ | ⟨-, hd⟩
    · omega
    · omega
  have hduring : s₀.sess.compacting = true → s₀.sess.pendingText = none ∨
      dones s₀ = 0 ∧ s₀.sess.pendingText = some w.launched := by
    intro hc
    rcases hfrom with ⟨-, rfl⟩ | ⟨-, -, he, -⟩
    · exact h.during hc
    · exact .inl (by rw [he])
  have hannouncing : s₀.sess.compacting = false → 0 < dones s₀ → s₀.sess.pendingText = none ∨
      s₀.sess.pendingText = some ((w.after l t).ended.headD []) := by
    intro hc hpos
    rcases hfrom with ⟨ha, rfl⟩ | ⟨-, -, he, -⟩
    · have hended : (w.after l t).ended = w.ended := by
        unfold after
        dsimp only
        rw [if_neg (by omega), ha]
        rfl
      rw [hended]
      exact h.announcing hc hpos
    · exact .inl (by rw [he])
  have hown : (w.after l t).Own := by
    rcases hfrom with ⟨ha, -⟩ | ⟨ha, hpos, -, hp⟩
    · have hresent : (w.after l t).resent = w.resent := by
        unfold after
        rw [ha]
      unfold Own
      rw [hresent]
      exact h.own
    · have hresent : (w.after l t).resent = w.resent ++ [(textOf msg.contents, w.ended.headD [])] := by
        unfold after
        rw [ha, hp]
      -- no compact is under way: while one is, nothing is pending for the announcement
      have hhead : textOf msg.contents = w.ended.headD [] := by
        cases hsc : w.s.sess.compacting with
        | true =>
          rcases h.during hsc with hp' | ⟨hzero, -⟩
          · exact absurd (hp'.symm.trans hp) nofun
          · omega
        | false =>
          rcases h.announcing hsc hpos with hp' | hp'
          · exact absurd (hp'.symm.trans hp) nofun
          · exact Option.some.inj (hp.symm.trans hp')
      intro p hmem
      rw [hresent] at hmem
      rcases List.mem_append.mp hmem with hmem | hmem
      · exact h.own p hmem
      · rw [List.mem_singleton.mp hmem]
        exact hhead
  cases hsaved with
  | kept hc hp =>
    have hlaunched : (w.after l t).launched = w.launched := by
      unfold after
      rw [hi]
      exact if_neg (launches_ne_one (hc.trans hcomp))
    refine ⟨fun htc => ?_, fun htc hpos => ?_, hown⟩
    · have hs₀ : s₀.sess.compacting = true := hc.symm.trans htc
      have hpend : t.sess.pendingText = s₀.sess.pendingText := by
        rcases hp with hp | ⟨hbusy, -⟩
        · exact hp
        · exact absurd (hs₀.symm.trans (Bool.or_eq_false_iff.mp hbusy).2) nofun
      show t.sess.pendingText = none ∨ dones t = 0 ∧ t.sess.pendingText = some (w.after l t).launched
      rw [hlaunched, hpend, hdones]
      exact hduring hs₀
    · have hpos : 0 < dones t := hpos
      have hpend : t.sess.pendingText = s₀.sess.pendingText := by
        rcases hp with hp | hst
        · exact hp
        · have hzero : dones s₀ = 0 := hstores hst
          omega
      show t.sess.pendingText = none ∨ t.sess.pendingText = some ((w.after l t).ended.headD [])
      rw [hpend]
      exact hannouncing (hc.symm.trans htc) (by omega)
  | launched hs₀ htc hlaunch hp htext =>
    have hlaunched : (w.after l t).launched = textOf msg.contents := by
      unfold after
      rw [hi]
      exact if_pos (launches_eq_one (hcomp.symm.trans hs₀) htc)
    refine ⟨fun _ => ?_, fun hf => absurd (htc.symm.trans hf) nofun, hown⟩
    show t.sess.pendingText = none ∨ dones t = 0 ∧ t.sess.pendingText = some (w.after l t).launched
    rw [hlaunched, hdones]
    by_cases hst : s₀.stores msg l.env
    · exact .inr ⟨hstores hst, htext hst⟩
    · have hpend : t.sess.pendingText = s₀.sess.pendingText := hp.resolve_right hst
      rw [hpend]
      exact .inl ((hcompacts hlaunch).resolve_left hst)

/-- **One step** keeps what is pending the text of the message that launched the compact. -/
theorem Fresh.step (h : Fresh w) (hok : w.Clean l) (hs : w.step l = some w') : Fresh w' := by
  obtain ⟨t, ht, rfl⟩ := Option.map_eq_some_iff.mp hs
  cases hi : incoming w.s l with
  | none => exact h.quiet ht hi
  | some p => exact h.handed hok ht hi

/-- A session as `xAgentCreateSession` leaves it. -/
def start (conf : Conf) (contextWindow : ℕ) (store : List Slot) (nextUid : ℕ) : Resends :=
  { s := init conf contextWindow store nextUid }

theorem fresh_start (conf : Conf) (contextWindow : ℕ) (store : List Slot) (nextUid : ℕ) :
    Fresh (start conf contextWindow store nextUid) :=
  ⟨fun _ => .inl rfl, fun _ _ => .inl rfl, fun _ h => absurd h List.not_mem_nil⟩

/-- **In a clean run the text sent after a compact is the text of the message that launched it.** -/
theorem own_of_clean {conf : Conf} {contextWindow nextUid : ℕ} {store : List Slot}
    (h : Run step Clean (start conf contextWindow store nextUid) w) : w.Own :=
  (h.preserves (fun _ _ _ hi hok hs => hi.step hok hs) (fresh_start _ _ _ _)).own

/-- A clean run with a compact and its retry. -/
theorem own_of_clean_retry :
    ∃ w : Resends, Run step Clean (start (storeConf 0) 20 [] 0) w ∧ w.resent = [(bytes "hi", bytes "hi")] ∧
      w.Own := by
  obtain ⟨w, hrun, hw⟩ := exists_run_of_replay step Clean (fun w l => decide (w.Clean l))
    (fun w => w.resent = [(bytes "hi", bytes "hi")]) (fun _ _ h => of_decide_eq_true h)
    (show replay step _ _ (start (storeConf 0) 20 [] 0) (compactOnce ++ [⟨.ret, {}⟩]) = true by rfl)
  exact ⟨w, hrun, of_decide_eq_true hw, own_of_clean hrun⟩

/-- A compact that the provider refuses at its start, a turn, and a compact launched by an input without
text, up to its retry. -/
def stale : List Label :=
  [⟨.input hello, {}⟩, ⟨.ret, {}⟩, ⟨.text 0 (bytes "a"), {}⟩, ⟨.done 0 .endTurn .ok none, {}⟩, ⟨.ret, {}⟩,
    ⟨.input ⟨.user, [.text (bytes "a long question that is refused")]⟩, { submitRc := .sysError }⟩,
    ⟨.input hello, {}⟩, ⟨.ret, {}⟩, ⟨.text 2 (bytes "a"), {}⟩, ⟨.done 2 .endTurn .ok none, {}⟩, ⟨.ret, {}⟩,
    ⟨.input ⟨.user, [.text []]⟩, {}⟩, ⟨.ret, {}⟩, ⟨.text 3 (bytes "s"), {}⟩, ⟨.done 3 .endTurn .ok none, {}⟩,
    ⟨.ret, {}⟩]

/-- **The text of a refused input is sent** after a compact that an input without text launched. -/
theorem not_own_stale :
    ∃ w : Resends, Run step (fun _ _ => True) (start (storeConf 0) 30 [] 0) w ∧
      w.resent = [(bytes "a long question that is refused", [])] ∧ ¬ w.Own := by
  obtain ⟨w, hrun, hw⟩ := exists_run_of_replay step (fun _ _ => True) (fun _ _ => true)
    (fun w => w.resent = [(bytes "a long question that is refused", [])]) (fun _ _ _ => trivial)
    (show replay step _ _ (start (storeConf 0) 30 [] 0) stale = true by rfl)
  have hresent : w.resent = [(bytes "a long question that is refused", [])] := of_decide_eq_true hw
  refine ⟨w, hrun, hresent, fun h => ?_⟩
  have hp := h (bytes "a long question that is refused", []) (by rw [hresent]; exact List.mem_singleton.mpr rfl)
  exact absurd hp (by decide)

end Resends

end Libx.Agent
