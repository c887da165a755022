import Libx.Agent.Sequence
import Libx.Agent.Compact

/-!
# Libx.Agent.Paired — tool calls and results stay paired over the runs of a session

What a run adds to the history is closed when every round ends whole, and so is what a compact or
the gate leaves of it.
-/

namespace Libx.Agent

open Libx.Core State List

/-- The calls of the run so far have their results where they should, and those of the history. -/
structure Tidy (s : State) : Prop where
  phase : Phase True s.sight
  ranged : Ranged s
  history : s.alive = true → Closed entryMark (entries s.sess.history)

theorem entries_slotsFrom (u : ℕ) (es : List Entry) : entries (slotsFrom u es) = es := by
  induction es generalizing u with
  | nil => rfl
  | cons e es ih =>
    rw [slotsFrom, entries, map_cons]
    exact congrArg (e :: ·) (ih (u + 1))

theorem Gated.closed {s : State} {cs : List Content} {env : InputEnv} {x : Session}
    (hg : Gated s cs env x) (h : Closed entryMark (entries s.sess.history)) :
    Closed entryMark (entries x.history) := by
  obtain ⟨z, hz, hcore⟩ := hg
  rw [hcore.history]
  rcases hz with rfl | ⟨-, rfl⟩
  · exact h
  · exact trim_closed _ h

/-- **The end of a run** keeps the history closed. -/
theorem endRun_closed {reason : DoneReason} {env : InputEnv} {u : State}
    (hphase : Phase True (u.endRun reason env).sight)
    (hm : u.sess.compacting = true → Marked u.conf u.sess)
    (h : Closed entryMark (entries u.sess.history)) :
    Closed entryMark (entries (u.endRun reason env).sess.history) := by
  by_cases hc : u.sess.compacting = true
  · have hmark := hm hc
    obtain ⟨h1, h2⟩ := endRun_history reason env hc hmark
    by_cases hok : summaryBytes u.q.produced ≠ [] ∧ env.summaryOk = true
    · obtain ⟨z, hz, he⟩ := h1 hok
      obtain ⟨hstart, hstop⟩ := compactRange_turns hmark.range
      rw [he, Flushed.splice, entries, map_append, map_cons, map_take, map_drop]
      refine h.splice ?_ hstart.other hstop.other
      rw [entryMark, hz]
    · rw [h2 hok]
      exact h
  · have he : u.endRun reason env =
        userFinished ({ u with q := { u.q with running := false } }.emit (.done u.run reason)) := by
      unfold State.endRun State.sessFwdOnDone
      rw [if_neg (by simp [State.emit, hc])]
    have hhist : (u.endRun reason env).sess.history =
        u.sess.history ++ slotsFrom u.nextUid u.q.produced := by
      rw [he]
      rfl
    have hrest := hphase.notRunning (by rw [he]; rfl)
    have hprod : Closed entryMark u.q.produced := by
      have := (hrest.tidy trivial).2.2
      rw [he] at this
      exact this
    rw [hhist, entries, map_append]
    refine h.append ?_
    have hnew := entries_slotsFrom u.nextUid u.q.produced
    rw [entries] at hnew
    rw [hnew]
    exact hprod

/-- **One step** keeps a session tidy. -/
theorem Tidy.step {s t : State} {l : Label} (h : Tidy s) (hone : oneSession l = true)
    (hlast : tailsLast s l = true) (hown : ownRun s l = true) (hwhole : whole s l = true)
    (hs : step s l = some t) : Tidy t := by
  have hphase := h.phase.step hlast hown (fun _ => hwhole) (fun _ => h.history) hs
  refine ⟨hphase, h.ranged.step hs, fun ha => ?_⟩
  cases effect_of_step hs with
  | settles hset =>
    cases hset with
    | quiet hq =>
      rw [hq.sess]
      exact h.history (hq.alive ▸ ha)
    | @ended u reason hq hr =>
      have halive : s.alive = true := by
        have he : (u.endRun reason l.env).alive = u.alive := by
          rcases endRun_ledger reason l.env u with ⟨-, z, -, -, hl⟩ | ⟨-, hl⟩ | ⟨-, hl⟩
          all_goals exact congrArg Ledger.alive hl
        rw [he] at ha
        exact hq.alive ▸ ha
      refine endRun_closed hphase (fun hc => ?_) ?_
      · rw [hq.sess] at hc ⊢
        rw [hq.conf]
        exact h.ranged halive hc
      · rw [hq.sess]
        exact h.history halive
    | finished _ _ _ => exact absurd ha (by simp [State.sessionFinish])
  | @received _ s₀ msg halive hi hr =>
    have hsess : s₀.sess.history = s.sess.history :=
      congrArg (fun l => l.sess.history) (incoming_same hi).1
    have h0 : Closed entryMark (entries s₀.sess.history) := by
      rw [hsess]
      exact h.history halive
    cases hr with
    | kept x hg _ hl _ =>
      rw [show t.sess = x from congrArg Ledger.sess hl]
      exact hg.closed h0
    | launched x msgs hg _ _ _ _ hl _ =>
      rw [show t.sess = { x with compacting := true } from congrArg Ledger.sess hl]
      exact hg.closed h0
    | withdrawn x o hg _ _ hl _ _ =>
      have ht : t.sess.history = x.history := congrArg (fun l => l.sess.history) hl
      rw [ht]
      exact hg.closed h0
    | accepted x o hg _ _ _ hl _ =>
      have ht : t.sess.history = x.history ++ [userSlot s₀ msg] := congrArg (fun l => l.sess.history) hl
      rw [ht, entries, map_append]
      exact (hg.closed h0).append (closed_text _ _)
  | window n => exact h.history ha
  | create n hm _ => exact absurd hone (by simp [oneSession, hm])

/-- **Every message list submitted is well paired** while every round ends whole and no tail runs inside
another tool's callback. -/
theorem paired_of_run {conf : Conf} {contextWindow nextUid : ℕ} {store : List Slot} {s : State}
    (hempty : (init conf contextWindow store nextUid).sess.history = [])
    (h : Run step (fun s l => oneSession l = true ∧ tailsLast s l = true ∧ ownRun s l = true ∧
      whole s l = true) (init conf contextWindow store nextUid) s) : AllPaired s.trace := by
  have htidy : Tidy s := by
    refine h.preserves (fun _ _ _ hi hok hs => hi.step hok.1 hok.2.1 hok.2.2.1 hok.2.2.2 hs)
      ⟨phase_init _ _ _ _ _, fun _ hc => absurd hc (by simp [init, createSession]), fun _ => ?_⟩
    rw [hempty]
    exact .nil
  exact htidy.phase.common.paired trivial

/-- A call is gated and rejected, a second run follows. -/
def rejectAndGoOn : List Label :=
  [⟨.input hello, {}⟩, ⟨.ret, {}⟩,
    ⟨.toolCall 0 (some (bytes "a")) (some (bytes "rm")) (some (bytes "1")), {}⟩,
    ⟨.done 0 .toolUse .ok none, {}⟩, ⟨.ret, {}⟩, ⟨.resolve 0 .reject [], {}⟩, ⟨.ret, {}⟩,
    ⟨.done 1 .endTurn .ok none, {}⟩, ⟨.ret, {}⟩, ⟨.input hello, {}⟩]

/-- A run that dispatches its call and one that follows meet the condition. -/
theorem paired_of_run_rejected :
    ∃ s, Run step (fun s l => oneSession l = true ∧ tailsLast s l = true ∧ ownRun s l = true ∧
      whole s l = true) (init gatedConf 0 [] 0) s ∧ submits s.trace = 3 ∧ AllPaired s.trace := by
  obtain ⟨s, hs, hn⟩ := exists_run_of_replay step (fun s l => oneSession l = true ∧
      tailsLast s l = true ∧ ownRun s l = true ∧ whole s l = true)
    (fun s l => oneSession l && tailsLast s l && ownRun s l && whole s l) (fun s => submits s.trace = 3)
    (fun _ _ h => by simpa [and_assoc] using h)
    (show replay step _ _ (init gatedConf 0 [] 0) rejectAndGoOn = true by rfl)
  exact ⟨s, hs, by simpa using hn, paired_of_run rfl hs⟩

/-- An Assistant message is followed by fewer or more results than it has calls. -/
def unanswered : List Message → Bool
  | [] => false
  | m :: post =>
    (m.role = .assistant && m.calls.length ≠ ((toolRun post).flatMap Message.answers).length) ||
      unanswered post

theorem not_wellPaired_of_unanswered : ∀ {ms : List Message}, unanswered ms = true → ¬ WellPaired ms := by
  intro ms h hw
  have hfind : ∀ ms : List Message, unanswered ms = true → ∃ pre m post, ms = pre ++ m :: post ∧
      m.role = .assistant ∧ m.calls.length ≠ ((toolRun post).flatMap Message.answers).length := by
    intro ms
    induction ms with
    | nil => intro h; exact absurd h (by simp [unanswered])
    | cons m post ih =>
      intro h
      rw [unanswered, Bool.or_eq_true, Bool.and_eq_true] at h
      rcases h with ⟨hr, hl⟩ | h
      · exact ⟨[], m, post, rfl, by simpa using hr, by simpa using hl⟩
      · obtain ⟨pre, m', post', rfl, hr, hl⟩ := ih h
        exact ⟨m :: pre, m', post', rfl, hr, hl⟩
  obtain ⟨pre, m, post, he, hr, hl⟩ := hfind ms h
  exact hl (hw.answered pre m post he hr).length_eq

def unpairedSubmit (o : Obs) : Bool :=
  match o with
  | .submitted _ _ _ _ msgs _ => unanswered msgs
  | _ => false

/-- The answer of a run is cut off behind a tool call; a second run follows. -/
def cutOff : List Label :=
  [⟨.input hello, {}⟩, ⟨.ret, {}⟩,
    ⟨.toolCall 0 (some (bytes "a")) (some (bytes "rm")) (some (bytes "1")), {}⟩,
    ⟨.done 0 .maxTokens .ok none, {}⟩, ⟨.ret, {}⟩, ⟨.input hello, {}⟩]

/-- **A call that was streamed before the answer was cut off** goes into the history and has no result
in what the next run submits. -/
theorem not_paired :
    ∃ s, Run step (fun _ l => oneSession l = true) (init gatedConf 0 [] 0) s ∧
      ¬ AllPaired s.trace := by
  obtain ⟨s, hs, hn⟩ := exists_run_of_replay step (fun _ l => oneSession l = true) (fun _ l => oneSession l)
    (fun s => s.trace.any unpairedSubmit) (fun _ _ h => h)
    (show replay step _ _ (init gatedConf 0 [] 0) cutOff = true by rfl)
  obtain ⟨o, ho, hm⟩ := any_eq_true.mp hn
  refine ⟨s, hs, fun hp => ?_⟩
  cases o with
  | submitted serial run turn limit msgs produced =>
    exact not_wellPaired_of_unanswered hm (hp serial run turn limit msgs produced ho)
  | _ => exact absurd hm (by simp [unpairedSubmit])

end Libx.Agent
