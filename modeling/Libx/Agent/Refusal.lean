import Libx.Agent.Gate
import Libx.Agent.Machine

/-!
# Libx.Agent.Refusal — what a refused input leaves behind

`xAgentSessionInput` consults the gate before it touches the history, and rolls it back on every
exit after that.  Exits leave a trace all the same: the gate trims tool results, saves the pending
text and records the anti-loop length before it refuses, one that passes clears that length, and
no rollback takes back the count of the appended entry.
-/

namespace Libx.Agent

open State

/-! ### The call -/

/-- What a call made above `n` frames comes to once the provider's submit, if it accepted one, has
returned. -/
def State.settle (n : ℕ) (t : State) : State :=
  if t.stack.length = n then t
  else match t.stack with
  | .submit k :: rest => submitAccepted k { t with stack := rest }
  | _ => t

/-- `xAgentSessionInput` from its call to its return. -/
def State.inputCall (msg : Message) (env : InputEnv) (s : State) : State :=
  (s.sessionInput false msg env).settle s.stack.length

/-- The code the last `xAgentSessionInput` returned. -/
def State.returned (s : State) : Option Errno :=
  match s.trace with
  | .inputRet rc :: _ => some rc
  | _ => none

/-- The fields that a refused input must leave as they were. -/
structure Unchanged (x y : Session) : Prop where
  history : y.history = x.history
  knownPromptTokens : y.knownPromptTokens = x.knownPromptTokens
  deltaEntries : y.deltaEntries = x.deltaEntries
  persistedPrefix : y.persistedPrefix = x.persistedPrefix
  lastCompactHistoryLen : y.lastCompactHistoryLen = x.lastCompactHistoryLen
  pendingText : y.pendingText = x.pendingText

/-! ### The condition -/

/-- **The refusals that leave no trace**: the session is busy; the gate refuses with nothing to
trim and before it records a boundary; or the gate lets the message through, has no anti-loop
length to clear, and the message cannot be appended. -/
def refusedEarly (s : State) (msg : Message) (env : InputEnv) : Prop :=
  (s.q.live = true ∨ s.sess.compacting = true) ∨
  (overBudget s.conf msg.contents s.sess ∧ s.sess.trims env = false ∧ cannotCompact s.conf s.sess) ∨
  (¬ overBudget s.conf msg.contents s.sess ∧ env.appendOk = false ∧
    (s.conf.policy = .disabled ∨ s.sess.lastCompactHistoryLen = 0))

/-! ### From the gate to the return -/

theorem settle_returned {n : ℕ} {t : State} (h : t.stack.length = n) :
    t.settle n = t := if_pos h

theorem settle_runFailed (k : RunKind) (e : Errno) (s : State) :
    (s.runFailed k e).settle s.stack.length = s.runFailed k e := by
  cases k with
  | user checkpoint auto | compact auto => exact settle_returned rfl

/-- **A run that is started** is accepted or fails, and the session is as it was before the submit. -/
theorem settle_queryRun (k : RunKind) (msgs : List Message) (env : InputEnv) (s : State) :
    ∃ u : State, u.sess = s.sess ∧
      ((∃ e, e ≠ .ok ∧ (s.queryRun k msgs env).settle s.stack.length = u.runFailed k e) ∨
        (s.queryRun k msgs env).settle s.stack.length = submitAccepted (.run k) u) := by
  unfold State.queryRun
  split
  · unfold State.submitRound
    split
    · next e hv =>
      refine ⟨_, ?_, .inl ⟨e, ?_, settle_runFailed k e _⟩⟩
      · rfl
      · unfold viewBuild at hv
        split_ifs at hv
        injection hv with hv
        rw [← hv]; simp
    · next ms _ =>
      split
      · refine ⟨_, ?_, .inr (if_neg (by simp))⟩
        rfl
      · next hrc =>
        refine ⟨_, ?_, .inl ⟨env.submitRc, hrc, settle_runFailed k _ _⟩⟩
        rfl
  · exact ⟨s, rfl, .inl ⟨_, by simp, settle_runFailed k _ s⟩⟩

theorem settle_userRun (checkpoint : ℕ) (msgs : List Message) (env : InputEnv) (s : State) :
    let t := (s.queryRun (.user checkpoint false) msgs env).settle s.stack.length
    t.returned = some .ok ∨
      t.sess.deltaEntries = s.sess.deltaEntries ∧ t.sess.history = s.sess.history.take checkpoint := by
  intro t
  obtain ⟨u, hu, ⟨e, -, he⟩ | he⟩ := settle_queryRun (.user checkpoint false) msgs env s
  · right
    rw [show t = u.runFailed (.user checkpoint false) e from he, ← hu]
    exact ⟨rfl, rfl⟩
  · left
    rw [show t = submitAccepted (.run (.user checkpoint false)) u from he]
    rfl

theorem settle_compactRun (msgs : List Message) (env : InputEnv) (s : State)
    (hc : s.sess.compacting = true) :
    let t := (s.queryRun (.compact false) msgs env).settle s.stack.length
    t.sess.compacting = true ∨ t.sess = { s.sess with compacting := false } := by
  intro t
  obtain ⟨u, hu, ⟨e, -, he⟩ | he⟩ := settle_queryRun (.compact false) msgs env s
  · right
    rw [show t = u.runFailed (.compact false) e from he, ← hu]
    rfl
  · left
    rw [show t = submitAccepted (.run (.compact false)) u from he]
    show u.sess.compacting = true
    rw [hu, hc]

theorem settle_acceptInput (msg : Message) (env : InputEnv) (s : State)
    (ha : env.appendOk = true) :
    let t := (s.acceptInput false msg env).settle s.stack.length
    t.returned = some .ok ∨
      t.sess.deltaEntries = s.sess.deltaEntries + 1 ∧ t.sess.history = s.sess.history := by
  have htake : (s.sess.history ++ slotsFrom s.nextUid [.text msg.role (textOf msg.contents)]).take
      s.sess.history.length = s.sess.history := List.take_left
  unfold State.acceptInput
  dsimp only
  rw [ha, if_neg (by simp)]
  split
  · right
    rw [settle_returned]
    · exact ⟨rfl, htake⟩
    · rfl
  · split
    · right
      rw [settle_returned]
      · exact ⟨rfl, htake⟩
      · rfl
    · exact (settle_userRun _ _ _ _).imp id (fun h => ⟨h.1, h.2.trans htake⟩)

/-! ### The result -/

theorem inputCall_busy {s : State} (msg : Message) (env : InputEnv)
    (h : s.q.live = true ∨ s.sess.compacting = true) :
    s.inputCall msg env = s.returnInput false .busy := by
  unfold State.inputCall State.sessionInput
  rw [if_pos (by simpa using h)]
  exact settle_returned rfl

theorem inputCall_idle {s : State} (msg : Message) (env : InputEnv)
    (h : ¬ (s.q.live = true ∨ s.sess.compacting = true)) :
    (∃ e x, sessionEnforceBudget s.conf msg.contents env s.sess = .refuse e x ∧
      s.inputCall msg env = returnInput false e { s with sess := x }) ∨
    (∃ x msgs, sessionEnforceBudget s.conf msg.contents env s.sess = .launch x msgs ∧
      ((s.inputCall msg env).sess.compacting = true ∨
        (s.inputCall msg env).sess = { x with compacting := false } ∨
        (s.inputCall msg env).sess = x)) ∨
    (∃ x, sessionEnforceBudget s.conf msg.contents env s.sess = .pass x ∧
      (env.appendOk = false ∧
          s.inputCall msg env = returnInput false .noMemory { s with sess := x } ∨
        env.appendOk = true ∧ ((s.inputCall msg env).returned = some .ok ∨
          (s.inputCall msg env).sess.deltaEntries = x.deltaEntries + 1 ∧
          (s.inputCall msg env).sess.history = x.history))) := by
  unfold State.inputCall State.sessionInput
  rw [if_neg (by simpa using h)]
  cases hg : sessionEnforceBudget s.conf msg.contents env s.sess with
  | refuse e x => exact .inl ⟨e, x, rfl, settle_returned rfl⟩
  | launch x msgs =>
    refine .inr (.inl ⟨x, msgs, rfl, ?_⟩)
    dsimp only
    split
    · right; right
      rw [settle_returned]
      · rfl
      · rfl
    · exact (settle_compactRun _ _ _ rfl).imp id .inl
  | pass x =>
    refine .inr (.inr ⟨x, rfl, ?_⟩)
    cases ha : env.appendOk with
    | false =>
      left
      refine ⟨rfl, ?_⟩
      unfold State.acceptInput
      dsimp only
      rw [ha, if_pos (by simp)]
      exact settle_returned rfl
    | true => exact .inr ⟨rfl, settle_acceptInput msg env { s with sess := x } ha⟩

/-- **A refused input changes nothing exactly when it is refused early**, and then the whole state
but the event list and the gate's last total, which nothing reads, is as it was. -/
theorem unchanged_iff_refusedEarly (s : State) (msg : Message) (env : InputEnv)
    (hret : (s.inputCall msg env).returned ≠ some .ok)
    (hlaunch : (s.inputCall msg env).sess.compacting = s.sess.compacting) :
    (Unchanged s.sess (s.inputCall msg env).sess ↔ refusedEarly s msg env) ∧
    (refusedEarly s msg env → s.inputCall msg env =
      { s with
        sess := { s.sess with lastGateTotal := (s.inputCall msg env).sess.lastGateTotal }
        trace := (s.inputCall msg env).trace }) := by
  by_cases hb : s.q.live = true ∨ s.sess.compacting = true
  · have he : refusedEarly s msg env := .inl hb
    rw [inputCall_busy msg env hb]
    exact ⟨⟨fun _ => he, fun _ => ⟨rfl, rfl, rfl, rfl, rfl, rfl⟩⟩, fun _ => rfl⟩
  have hc : s.sess.compacting = false := by
    rw [← Bool.not_eq_true]; exact fun h => hb (.inr h)
  rw [hc] at hlaunch
  have hcases := inputCall_idle msg env hb
  set t := s.inputCall msg env with ht
  by_cases ho : overBudget s.conf msg.contents s.sess
  · by_cases htrim : s.sess.trims env = true
    · -- the gate trims: the history is the trimmed one whatever follows
      have hhist : t.sess.history = (sessionTrim env.trimOk s.sess).history := by
        rw [← gate_trimmed ho]
        rcases hcases with ⟨e, x, hg, he⟩ | ⟨x, msgs, hg, he | he | he⟩ |
          ⟨x, hg, ⟨-, he⟩ | ⟨-, he | ⟨-, he⟩⟩⟩
        · rw [hg, he]; rfl
        · rw [he] at hlaunch; exact absurd hlaunch (by simp)
        · rw [hg, he]; rfl
        · rw [hg, he]; rfl
        · rw [hg, he]; rfl
        · exact absurd he hret
        · rw [hg, he]; rfl
      have hno : ¬ refusedEarly s msg env := by
        rintro (h | ⟨-, h, -⟩ | ⟨h, -⟩)
        · exact hb h
        · rw [htrim] at h; exact absurd h (by simp)
        · exact h ho
      refine ⟨⟨fun h => ?_, fun h => absurd h hno⟩, fun h => absurd h hno⟩
      exact absurd (hhist.symm.trans h.history) (sessionTrim_history_ne htrim)
    · have htrim : s.sess.trims env = false := by simpa using htrim
      by_cases hcan : cannotCompact s.conf s.sess
      · -- nothing to trim and nothing to compact: refused on the spot
        have he : refusedEarly s msg env := .inr (.inl ⟨ho, htrim, hcan⟩)
        have hrefuse : ∃ e, sessionEnforceBudget s.conf msg.contents env s.sess = .refuse e s.sess := by
          rcases gate_untrimmed ho htrim with ⟨h, -⟩ | ⟨h, hp⟩
          · exact ⟨_, h⟩
          · rw [h]; exact summarizeBranch_refuse _ _ hp hcan
        obtain ⟨e, hg⟩ := hrefuse
        have heq : t = s.returnInput false e := by
          rcases hcases with ⟨e', x, hg', h⟩ | ⟨x, msgs, hg', -⟩ | ⟨x, hg', -⟩
          · rw [hg] at hg'
            injection hg' with h1 h2
            rw [h, ← h1, ← h2]
          all_goals rw [hg] at hg'; injection hg'
        rw [heq]
        exact ⟨⟨fun _ => he, fun _ => ⟨rfl, rfl, rfl, rfl, rfl, rfl⟩⟩, fun _ => rfl⟩
      · -- a boundary is recorded
        have hpol : s.conf.policy ≠ .error := fun h => hcan (.inl h)
        have hgate : sessionEnforceBudget s.conf msg.contents env s.sess =
            summarizeBranch s.conf msg.contents env s.sess := by
          rcases gate_untrimmed ho htrim with ⟨-, h⟩ | ⟨h, -⟩
          · exact absurd h hpol
          · exact h
        obtain ⟨hmark, hnp⟩ := summarizeBranch_marks msg.contents env hc hcan
        have hlast : t.sess.lastCompactHistoryLen = s.sess.history.length := by
          rw [← hmark, ← hgate]
          rcases hcases with ⟨e, x, hg, he⟩ | ⟨x, msgs, hg, he | he | he⟩ | ⟨x, hg, -⟩
          · rw [hg, he]; rfl
          · rw [he] at hlaunch; exact absurd hlaunch (by simp)
          · rw [hg, he]; rfl
          · rw [hg, he]; rfl
          · rw [hgate] at hg; exact absurd hg (hnp x)
        have hne : s.sess.history.length ≠ s.sess.lastCompactHistoryLen := by
          simp only [cannotCompact, not_or] at hcan
          obtain ⟨-, -, -, hr, hanti⟩ := hcan
          obtain ⟨r, hr⟩ := Option.ne_none_iff_exists'.mp hr
          have := compactRange_pos hr
          omega
        have hno : ¬ refusedEarly s msg env := by
          rintro (h | ⟨-, -, h⟩ | ⟨h, -⟩)
          · exact hb h
          · exact hcan h
          · exact h ho
        refine ⟨⟨fun h => ?_, fun h => absurd h hno⟩, fun h => absurd h hno⟩
        exact absurd (hlast.symm.trans h.lastCompactHistoryLen) hne
  · -- the gate lets the message through
    have hpass := gate_pass env ho
    have hx : ∃ x, sessionEnforceBudget s.conf msg.contents env s.sess = .pass x ∧
        x = (if s.conf.policy = .disabled then s.sess
          else gatePassed s.sess (gateEstimate s.sess msg.contents)) := ⟨_, hpass, rfl⟩
    obtain ⟨x, hx, hxe⟩ := hx
    rcases hcases with ⟨e, y, hg, -⟩ | ⟨y, msgs, hg, -⟩ | ⟨y, hg, hrest⟩
    · rw [hx] at hg; injection hg
    · rw [hx] at hg; injection hg
    rw [hx] at hg
    injection hg with hg
    subst hg
    have hdelta : x.deltaEntries = s.sess.deltaEntries := by
      rw [hxe]
      split_ifs
      · rfl
      · rfl
    rcases hrest with ⟨ha, he⟩ | ⟨ha, he | ⟨he, -⟩⟩
    · by_cases hp : s.conf.policy = .disabled
      · have hearly : refusedEarly s msg env := .inr (.inr ⟨ho, ha, .inl hp⟩)
        rw [if_pos hp] at hxe
        rw [he, hxe]
        exact ⟨⟨fun _ => hearly, fun _ => ⟨rfl, rfl, rfl, rfl, rfl, rfl⟩⟩, fun _ => rfl⟩
      rw [if_neg hp] at hxe
      by_cases hl : s.sess.lastCompactHistoryLen = 0
      · have hearly : refusedEarly s msg env := .inr (.inr ⟨ho, ha, .inr hl⟩)
        have hx' : x = { s.sess with lastGateTotal := gateEstimate s.sess msg.contents } := by
          rw [hxe, gatePassed, ← hl]
        rw [he, hx']
        exact ⟨⟨fun _ => hearly, fun _ => ⟨rfl, rfl, rfl, rfl, rfl, rfl⟩⟩, fun _ => rfl⟩
      · -- the anti-loop length is cleared
        have hno : ¬ refusedEarly s msg env := by
          rintro (h | ⟨h, -⟩ | ⟨-, -, h | h⟩)
          · exact hb h
          · exact ho h
          · exact hp h
          · exact hl h
        refine ⟨⟨fun h => ?_, fun h => absurd h hno⟩, fun h => absurd h hno⟩
        have hzero : t.sess.lastCompactHistoryLen = 0 := by rw [he, hxe]; rfl
        exact absurd (h.lastCompactHistoryLen.symm.trans hzero) hl
    · exact absurd he hret
    · -- the entry's count is not taken back
      have hno : ¬ refusedEarly s msg env := by
        rintro (h | ⟨h, -⟩ | ⟨-, h, -⟩)
        · exact hb h
        · exact ho h
        · rw [ha] at h; exact absurd h (by simp)
      refine ⟨⟨fun h => ?_, fun h => absurd h hno⟩, fun h => absurd h hno⟩
      have := h.deltaEntries
      omega

/-- A session with policy Error and a window of ten tokens, whose history holds a tool result. -/
def fullSession : State :=
  { conf := { policy := .error }
    sess :=
      { history := [⟨0, .text .user (bytes "hi")⟩, ⟨1, .toolUse (bytes "a") (bytes "ls") (bytes "1")⟩,
          ⟨2, .toolResult (bytes "a") (bytes "some output") false⟩]
        persistedPrefix := 3
        contextWindow := 10 } }

/-- With a history that holds no tool result the same refusal is an early one. -/
theorem unchanged_iff_refusedEarly_hello :
    let s : State := { fullSession with sess := { fullSession.sess with history := [] } }
    let big : Message := ⟨.user, [.text (bytes "a message that does not fit into the window")]⟩
    Unchanged s.sess (s.inputCall big {}).sess ∧ refusedEarly s big {} := by
  intro s big
  have h := unchanged_iff_refusedEarly s big {} (by decide) (by decide)
  have he : refusedEarly s big {} :=
    .inr (.inl ⟨⟨by decide, by decide⟩, by decide, .inl rfl⟩)
  exact ⟨h.1.mpr he, he⟩

/-- **A refused input changes the history**: under policy Error the tool result is trimmed and the
known prompt forgotten before the input is refused. -/
theorem not_unchanged :
    (fullSession.inputCall hello {}).returned = some .promptTooLong ∧
    (fullSession.inputCall hello {}).sess.compacting = fullSession.sess.compacting ∧
    ¬ Unchanged fullSession.sess (fullSession.inputCall hello {}).sess := by
  refine ⟨by decide, by decide, fun h => ?_⟩
  exact absurd h.history (by decide)

end Libx.Agent
