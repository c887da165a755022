import Libx.Agent.Session

/-!
# Libx.Agent.Gate — what the budget gate does to the session

`session_enforce_budget_` trims tool results when the message is over the budget and, under policy
Summarize, records the compact boundary; everything else it writes is its own bookkeeping.
-/

namespace Libx.Agent

def Session.trims (env : InputEnv) (x : Session) : Bool :=
  x.history.any (fun e => e.entry.trimmable && env.trimOk e.uid)

def overBudget (conf : Conf) (cs : List Content) (x : Session) : Prop :=
  conf.policy ≠ .disabled ∧ effectiveLimit conf x < gateEstimate x cs

instance (conf : Conf) (cs : List Content) (x : Session) : Decidable (overBudget conf cs x) :=
  inferInstanceAs (Decidable (_ ∧ _))

variable {conf : Conf}

/-- The policy is Error, or nothing can be compacted. -/
def cannotCompact (conf : Conf) (x : Session) : Prop :=
  conf.policy = .error ∨ userTurns x = 0 ∨ conf.headTurns + conf.tailTurns ≥ userTurns x ∨
  compactRange conf x = none ∨
  0 < x.lastCompactHistoryLen ∧ x.history.length ≤ x.lastCompactHistoryLen

/-! ### Trimming -/

theorem trim_trimmable (e : Entry) : e.trim.trimmable = false := by
  cases e with
  | toolResult id output isError =>
    have hp : trimMark.isPrefixOf (trimMarker output.length) = true := by
      rw [List.isPrefixOf_iff_prefix]
      exact ⟨_, by rw [trimMarker, List.append_assoc, List.append_assoc]⟩
    simp [Entry.trim, Entry.trimmable, hp]
  | _ => rfl

theorem trim_ne {e : Entry} (h : e.trimmable = true) : e.trim ≠ e := by
  intro he
  rw [← he, trim_trimmable] at h
  exact absurd h (by decide)

variable {env : InputEnv} {x : Session}

theorem sessionTrim_eq (h : x.trims env = false) :
    sessionTrim env.trimOk x = x := by
  unfold sessionTrim
  rw [if_neg (by simpa [Session.trims] using h)]

theorem sessionTrim_history_ne (h : x.trims env = true) :
    (sessionTrim env.trimOk x).history ≠ x.history := by
  obtain ⟨e, he, hok⟩ := List.any_eq_true.mp h
  have htrim : sessionTrim env.trimOk x =
      { x with history := x.history.map (trimSlot env.trimOk), knownPromptTokens := -1,
               deltaEntries := 0 } := if_pos h
  rw [htrim]
  intro heq
  obtain ⟨i, hi, hget⟩ := List.getElem_of_mem he
  have h1 : (x.history.map (trimSlot env.trimOk))[i]? = x.history[i]? := congrArg (·[i]?) heq
  rw [List.getElem?_map, List.getElem?_eq_getElem hi, hget] at h1
  simp only [Option.map_some, Option.some.injEq, trimSlot, hok, if_true] at h1
  have h2 : e.entry.trim = e.entry := congrArg Slot.entry h1
  rw [Bool.and_eq_true] at hok
  exact trim_ne hok.1 h2

theorem sessionTrim_lastCompact (ok : ℕ → Bool) (x : Session) :
    (sessionTrim ok x).lastCompactHistoryLen = x.lastCompactHistoryLen := by
  unfold sessionTrim
  split_ifs
  · rfl
  · rfl

/-! ### The gate -/

theorem compactRange_pos {r : ℕ × ℕ} (h : compactRange conf x = some r) :
    0 < x.history.length := by
  unfold compactRange at h
  dsimp only at h
  split at h
  · next start stop hstart _ =>
    have hlt := findUserTurn_lt hstart
    rw [entries, List.length_map] at hlt
    omega
  · exact absurd h (by simp)

theorem summarizeBranch_refuse (cs : List Content) (env : InputEnv)
    (hp : conf.policy ≠ .error) (h : cannotCompact conf x) :
    ∃ rc, summarizeBranch conf cs env x = .refuse rc x := by
  unfold summarizeBranch
  by_cases h1 : userTurns x = 0
  · rw [if_pos h1]
    exact ⟨_, rfl⟩
  rw [if_neg h1]
  by_cases h2 : conf.headTurns + conf.tailTurns ≥ userTurns x
  · rw [if_pos h2]
    exact ⟨_, rfl⟩
  rw [if_neg h2]
  cases hr : compactRange conf x with
  | none => exact ⟨_, rfl⟩
  | some r =>
    rcases h with h | h | h | h | h
    · exact absurd h hp
    · exact absurd h h1
    · exact absurd h h2
    · rw [hr] at h; exact absurd h (by simp)
    · dsimp only
      rw [if_pos h]
      exact ⟨_, rfl⟩

/-- The Summarize branch, when there is something to compact: whatever follows, the boundary is
recorded. -/
theorem summarizeBranch_marks (cs : List Content) (env : InputEnv)
    (hc : x.compacting = false) (h : ¬ cannotCompact conf x) :
    (summarizeBranch conf cs env x).session.lastCompactHistoryLen = x.history.length ∧
      ∀ y, summarizeBranch conf cs env x ≠ .pass y := by
  simp only [cannotCompact, not_or] at h
  obtain ⟨-, h1, h2, h3, h4⟩ := h
  have hlen : ∀ start stop, (markCompact start stop (savePending env.saveOk cs x)).lastCompactHistoryLen
      = x.history.length := by
    intro start stop
    unfold markCompact savePending
    split_ifs <;> rfl
  unfold summarizeBranch
  rw [if_neg h1, if_neg h2]
  cases hr : compactRange conf x with
  | none => exact absurd hr h3
  | some r =>
    dsimp only
    rw [if_neg h4, hc, if_neg (by simp)]
    split
    · exact ⟨hlen _ _, fun y hy => by injection hy⟩
    split
    all_goals exact ⟨hlen _ _, fun y hy => by injection hy⟩

theorem summarizeBranch_history (conf : Conf) (cs : List Content) (env : InputEnv) (x : Session) :
    (summarizeBranch conf cs env x).session.history = x.history := by
  have hmark : ∀ start stop, (markCompact start stop (savePending env.saveOk cs x)).history
      = x.history := by
    intro start stop
    unfold markCompact savePending
    split_ifs <;> rfl
  unfold summarizeBranch
  dsimp only
  split
  · rfl
  split
  · rfl
  split
  · rfl
  split
  · rfl
  split
  · rfl
  split
  · exact hmark _ _
  split
  · exact hmark _ _
  · exact hmark _ _

variable {cs : List Content}

theorem gate_pass (env : InputEnv)
    (h : ¬ overBudget conf cs x) :
    sessionEnforceBudget conf cs env x =
      .pass (if conf.policy = .disabled then x else gatePassed x (gateEstimate x cs)) := by
  unfold sessionEnforceBudget
  split_ifs with hp
  · rfl
  · have hle : gateEstimate x cs ≤ effectiveLimit conf x := by
      by_contra hlt
      exact h ⟨hp, by omega⟩
    rw [if_pos hle]

theorem gate_untrimmed
    (h : overBudget conf cs x) (ht : x.trims env = false) :
    sessionEnforceBudget conf cs env x = .refuse .promptTooLong x ∧ conf.policy = .error ∨
    sessionEnforceBudget conf cs env x = summarizeBranch conf cs env x ∧ conf.policy ≠ .error := by
  obtain ⟨hp, hlt⟩ := h
  have hle : ¬ gateEstimate x cs ≤ effectiveLimit conf x := by omega
  unfold sessionEnforceBudget
  rw [if_neg hp, if_neg hle, sessionTrim_eq ht, if_neg hle]
  cases hpol : conf.policy with
  | disabled => exact absurd hpol hp
  | error => exact .inl ⟨rfl, rfl⟩
  | summarize => exact .inr ⟨rfl, by simp⟩

theorem gate_trimmed
    (h : overBudget conf cs x) :
    (sessionEnforceBudget conf cs env x).session.history = (sessionTrim env.trimOk x).history := by
  obtain ⟨hp, hlt⟩ := h
  have hle : ¬ gateEstimate x cs ≤ effectiveLimit conf x := by omega
  unfold sessionEnforceBudget
  dsimp only
  rw [if_neg hp, if_neg hle]
  split
  · rfl
  · cases conf.policy with
    | disabled | error => rfl
    | summarize => exact summarizeBranch_history _ _ _ _

/-! ### What is left of the session -/

/-- `y` is `x` but for the gate's own bookkeeping. -/
structure SameCore (x y : Session) : Prop where
  history : y.history = x.history
  compacting : y.compacting = x.compacting
  knownPromptTokens : y.knownPromptTokens = x.knownPromptTokens
  deltaEntries : y.deltaEntries = x.deltaEntries
  overheadTokens : y.overheadTokens = x.overheadTokens
  persistedPrefix : y.persistedPrefix = x.persistedPrefix

theorem SameCore.refl (x : Session) : SameCore x x := ⟨rfl, rfl, rfl, rfl, rfl, rfl⟩

theorem sameCore_mark (start stop : ℕ) (ok : Bool) (cs : List Content) (x : Session) :
    SameCore x (markCompact start stop (savePending ok cs x)) := by
  unfold markCompact savePending
  split_ifs
  all_goals exact ⟨rfl, rfl, rfl, rfl, rfl, rfl⟩

theorem summarizeBranch_core (conf : Conf) (cs : List Content) (env : InputEnv) (x : Session) :
    SameCore x (summarizeBranch conf cs env x).session := by
  unfold summarizeBranch
  dsimp only
  split
  · exact .refl x
  split
  · exact .refl x
  split
  · exact .refl x
  split
  · exact .refl x
  split
  · exact .refl x
  split
  · exact sameCore_mark _ _ _ _ _
  split
  · exact sameCore_mark _ _ _ _ _
  · exact sameCore_mark _ _ _ _ _

/-- **The gate** leaves the session, or the trimmed session, but for its own bookkeeping. -/
theorem gate_session (conf : Conf) (cs : List Content) (env : InputEnv) (x : Session) :
    ∃ z, (z = x ∨ overBudget conf cs x ∧ z = sessionTrim env.trimOk x) ∧
      SameCore z (sessionEnforceBudget conf cs env x).session := by
  by_cases ho : overBudget conf cs x
  · refine ⟨_, .inr ⟨ho, rfl⟩, ?_⟩
    obtain ⟨hp, hlt⟩ := ho
    have hle : ¬ gateEstimate x cs ≤ effectiveLimit conf x := by omega
    unfold sessionEnforceBudget
    dsimp only
    rw [if_neg hp, if_neg hle]
    split
    · exact ⟨rfl, rfl, rfl, rfl, rfl, rfl⟩
    · cases conf.policy with
      | disabled | error => exact .refl _
      | summarize => exact summarizeBranch_core _ _ _ _
  · refine ⟨x, .inl rfl, ?_⟩
    rw [gate_pass env ho]
    show SameCore x (if _ then _ else _)
    split_ifs
    · exact .refl x
    · exact ⟨rfl, rfl, rfl, rfl, rfl, rfl⟩

theorem compactRange_bounds {start stop : ℕ}
    (h : compactRange conf x = some (start, stop)) : start < stop ∧ stop ≤ x.history.length := by
  unfold compactRange at h
  dsimp only at h
  split at h
  · next i j _ hstop =>
    split_ifs at h with hlt
    injection h with h
    injection h with h1 h2
    subst h1 h2
    refine ⟨hlt, ?_⟩
    have hlen : (entries x.history).length = x.history.length := by simp [entries]
    split_ifs at hstop with htail
    · injection hstop with hstop
      omega
    · have := findUserTurn_lt hstop
      omega
  · exact absurd h (by simp)

theorem summarizeBranch_launch {y : Session}
    {msgs : List Message} (h : summarizeBranch conf cs env x = .launch y msgs) :
    y.compactStart < y.compactEnd ∧ y.compactEnd ≤ y.history.length := by
  unfold summarizeBranch at h
  dsimp only at h
  split at h
  · injection h
  split at h
  · injection h
  split at h
  · injection h
  next start stop hr =>
    split at h
    · injection h
    split at h
    · injection h
    split at h
    · injection h
    split at h
    · injection h
    injection h with h _
    subst h
    have hc := (sameCore_mark start stop env.saveOk cs x).history
    rw [hc]
    exact compactRange_bounds hr

theorem gate_launch {y : Session}
    {msgs : List Message} (h : sessionEnforceBudget conf cs env x = .launch y msgs) :
    y.compactStart < y.compactEnd ∧ y.compactEnd ≤ y.history.length := by
  unfold sessionEnforceBudget at h
  dsimp only at h
  split at h
  · injection h
  split at h
  · injection h
  split at h
  · injection h
  split at h
  · injection h
  · exact summarizeBranch_launch h
  · injection h

end Libx.Agent
