import Libx.Agent.Gate
import Libx.Agent.Pairs

/-!
# Libx.Agent.Prompt — what a run on a paired history is handed

The prompts of `xAgentSessionInput` and of the gate's compact are closed transcripts when the history
is: the gate cuts the history where a User entry starts, and trimming changes no id.
-/

namespace Libx.Agent

open Libx.Core

theorem entryMark_user {e : Entry} (h : e.role = .user) : entryMark e = .other := by
  unfold entryMark
  rw [h]

theorem entryMark_trim (e : Entry) : entryMark e.trim = entryMark e := by
  cases e <;> rfl

theorem entryMark_dropped {e : Entry} (h : e.kept = false) : entryMark e = .answer none := by
  cases e with
  | text r t => cases r <;> first | rfl | exact absurd h (by simp [Entry.kept])
  | _ => exact absurd h (by simp [Entry.kept])

/-- Entry `i`, if there is one, is a User turn. -/
def TurnAt (es : List Entry) (i : ℕ) : Prop := ∀ e, es[i]? = some e → e.role = .user

theorem TurnAt.other {es : List Entry} {i : ℕ} (h : TurnAt es i) :
    ∀ e, es[i]? = some e → entryMark e = .other := fun e he => entryMark_user (h e he)

theorem turnAt_of_find {es : List Entry} {k i : ℕ} (h : findUserTurn es k = some i) : TurnAt es i := by
  obtain ⟨e, he, hr⟩ := findUserTurn_some h
  intro e' he'
  rw [he] at he'
  injection he' with he'
  rw [← he']
  exact hr

variable {conf : Conf} {x : Session}

/-- **Both ends of a compact's range are User turns**, or the end of the history. -/
theorem compactRange_turns {start stop : ℕ}
    (h : compactRange conf x = some (start, stop)) :
    TurnAt (entries x.history) start ∧ TurnAt (entries x.history) stop := by
  unfold compactRange at h
  dsimp only at h
  split at h
  · next i j hstart hstop =>
    split_ifs at h with hlt
    injection h with h
    injection h with h1 h2
    subst h1 h2
    refine ⟨turnAt_of_find hstart, ?_⟩
    split_ifs at hstop with htail
    · injection hstop with hstop
      intro e he
      rw [← hstop, List.getElem?_eq_none (le_refl _)] at he
      exact absurd he (by simp)
    · exact turnAt_of_find hstop
  · exact absurd h (by simp)

theorem closed_text (r : Role) (t : Bytes) : Closed entryMark [Entry.text r t] := by
  refine Closed.single ?_ ?_
  · cases r <;> rfl
  · cases r <;> rfl

variable {msgs : List Message}

/-- **The entries a Query gets** for a history. -/
theorem inputs_closed {memText : Option Bytes} {hist : List Slot} {viewOk : Bool} (hc : Closed entryMark (entries hist))
    (h : sessInputViewBuild conf memText hist viewOk = .ok msgs) :
    Closed entryMark (turnBufAppend msgs) := by
  have hmsgs : ∀ all : List Message, (if all = [] then Except.error Errno.invalidArg
      else if !viewOk then .error .noMemory else .ok all) = .ok msgs → all = msgs := by
    intro all ha
    split_ifs at ha
    injection ha
  rw [← hmsgs _ h, turnBufAppend, List.flatMap_append, List.flatMap_append]
  refine (Closed.append ?_ ?_).append ?_
  · split_ifs
    · exact .nil
    · exact closed_text _ _
  · cases memText with
    | none => exact .nil
    | some t => exact closed_text _ _
  · have hview := append_view (entries hist)
    unfold turnBufAppend at hview
    rw [hview]
    exact hc.filter (fun _ => entryMark_dropped)

theorem trim_closed (ok : ℕ → Bool) (h : Closed entryMark (entries x.history)) :
    Closed entryMark (entries (sessionTrim ok x).history) := by
  unfold sessionTrim
  split_ifs
  · have hmap : entries (x.history.map (trimSlot ok)) =
        x.history.map (fun y => (trimSlot ok y).entry) := by
      rw [entries, List.map_map]
      rfl
    have hmark : ∀ y : Slot, entryMark (trimSlot ok y).entry = entryMark y.entry := by
      intro y
      unfold trimSlot
      split_ifs
      · exact entryMark_trim _
      · rfl
    obtain ⟨b, hb⟩ := h
    refine ⟨b, ?_⟩
    rw [entries, scan_map] at hb
    rw [hmap, scan_map]
    simp only [hmark]
    exact hb
  · exact h

theorem summarizeBranch_closed {cs : List Content} {env : InputEnv} {y : Session} (hc : Closed entryMark (entries x.history))
    (h : summarizeBranch conf cs env x = .launch y msgs) :
    Closed entryMark (turnBufAppend msgs) ∧
      TurnAt (entries y.history) y.compactStart ∧ TurnAt (entries y.history) y.compactEnd := by
  unfold summarizeBranch at h
  dsimp only at h
  split at h
  · injection h
  split at h
  · injection h
  split at h
  · injection h
  next start stop hr =>
    split at h
    · injection h
    split at h
    · injection h
    split at h
    · injection h
    next ms hms =>
    split at h
    · injection h
    injection h with h1 h2
    have hhist := (sameCore_mark start stop env.saveOk cs x).history
    obtain ⟨hstart, hstop⟩ := compactRange_turns hr
    rw [hhist] at hms
    subst h1
    rw [hhist]
    refine ⟨?_, hstart, hstop⟩
    have htake : Closed entryMark (entries (x.history.take stop)) := by
      rw [entries, List.map_take]
      exact hc.take hstop.other
    have happ : turnBufAppend (ms ++ [⟨.user, [.text (summaryInstruct (stop - start))]⟩]) =
        turnBufAppend ms ++ [.text .user (textOf [.text (summaryInstruct (stop - start))])] := by
      rw [turnBufAppend, turnBufAppend, List.flatMap_append]
      rfl
    rw [← h2, happ]
    exact (inputs_closed htake hms).append (closed_text _ _)

/-- **The entries a compact gets**, and the range it is about. -/
theorem launch_closed {cs : List Content} {env : InputEnv} {y : Session} (hc : Closed entryMark (entries x.history))
    (h : sessionEnforceBudget conf cs env x = .launch y msgs) :
    Closed entryMark (turnBufAppend msgs) ∧
      TurnAt (entries y.history) y.compactStart ∧ TurnAt (entries y.history) y.compactEnd := by
  unfold sessionEnforceBudget at h
  dsimp only at h
  split at h
  · injection h
  split at h
  · injection h
  split at h
  · injection h
  split at h
  · injection h
  · exact summarizeBranch_closed (trim_closed _ hc) h
  · injection h

theorem gate_closed (conf : Conf) (cs : List Content) (env : InputEnv)
    (hc : Closed entryMark (entries x.history)) :
    Closed entryMark (entries (sessionEnforceBudget conf cs env x).session.history) := by
  obtain ⟨z, hz, hcore⟩ := gate_session conf cs env x
  rw [hcore.history]
  rcases hz with rfl | ⟨-, rfl⟩
  · exact hc
  · exact trim_closed _ hc

end Libx.Agent
