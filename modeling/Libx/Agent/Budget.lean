import Libx.Agent.Message

/-!
# Libx.Agent.Budget — the coarse token estimator and the user-turn search

`ai_budget_estimate_tokens`, `ai_budget_find_user_turn` and the shrinking of tool results that
`session_trim_consumed_tool_results_` applies to one entry.
-/

namespace Libx.Agent

/-- `XAGENT_BUDGET_PER_MSG_TOKENS`. -/
def perMsgTokens : ℕ := 8

/-- `XAGENT_BUDGET_BYTES_PER_TOKEN`. -/
def bytesPerToken : ℕ := 4

/-- `XAGENT_BUDGET_DEFAULT_MAX_TOKENS`. -/
def defaultMaxTokens : ℕ := 128000

/-- The payload bytes the estimator charges for an entry. -/
def Entry.payload : Entry → ℕ
  | .text _ t => t.length
  | .thinking t => t.length
  | .toolUse _ name args => name.length + args.length
  | .toolResult _ output _ => output.length

/-- `ai_budget_estimate_tokens`. -/
def estimateTokens (es : List Entry) : ℕ :=
  (es.map Entry.payload).sum / bytesPerToken + es.length * perMsgTokens

/-- `estimate_incoming_user_tokens_`. -/
def estimateIncomingUserTokens (cs : List Content) : ℕ :=
  (textOf cs).length / bytesPerToken + perMsgTokens

/-- `ai_budget_find_user_turn`: the index of the `k`-th User entry, `none` for
`XAGENT_BUDGET_NO_SUCH_TURN`. -/
def findUserTurn : List Entry → ℕ → Option ℕ
  | [], _ => none
  | e :: es, k =>
    if e.role = .user then
      match k with
      | 0 => some 0
      | k + 1 => (findUserTurn es k).map (· + 1)
    else (findUserTurn es k).map (· + 1)

def userCount (es : List Entry) : ℕ := es.countP (fun e => e.role = .user)

/-- `"[result trimmed: "`, what a trimmed output starts with. -/
def trimMark : Bytes := bytes "[result trimmed: "

/-- `kTrimSuffix` for an output of `n` bytes. -/
def trimMarker (n : ℕ) : Bytes := trimMark ++ bytes "was " ++ decimal n ++ bytes " bytes]"

/-- The entries `session_trim_consumed_tool_results_` rewrites: results with an output that is not
a marker already. -/
def Entry.trimmable : Entry → Bool
  | .toolResult _ output _ => output ≠ [] && !trimMark.isPrefixOf output
  | _ => false

def Entry.trim : Entry → Entry
  | .toolResult id output isError => .toolResult id (trimMarker output.length) isError
  | e => e

theorem Entry.trim_role (e : Entry) : e.trim.role = e.role := by
  cases e <;> rfl

@[simp] theorem estimateTokens_nil : estimateTokens [] = 0 := rfl

theorem findUserTurn_some : ∀ {es : List Entry} {k i : ℕ}, findUserTurn es k = some i →
    ∃ e, es[i]? = some e ∧ e.role = .user
  | [], _, _, h => by simp [findUserTurn] at h
  | e :: es, k, i, h => by
    unfold findUserTurn at h
    split_ifs at h with he
    · cases k with
      | zero => simp only [Option.some.injEq] at h; subst h; exact ⟨e, rfl, he⟩
      | succ k =>
        simp only [Option.map_eq_some_iff] at h
        obtain ⟨j, hj, rfl⟩ := h
        obtain ⟨x, hx, hr⟩ := findUserTurn_some hj
        exact ⟨x, by simpa using hx, hr⟩
    · simp only [Option.map_eq_some_iff] at h
      obtain ⟨j, hj, rfl⟩ := h
      obtain ⟨x, hx, hr⟩ := findUserTurn_some hj
      exact ⟨x, by simpa using hx, hr⟩

theorem findUserTurn_lt {es : List Entry} {k i : ℕ} (h : findUserTurn es k = some i) :
    i < es.length := by
  obtain ⟨e, he, -⟩ := findUserTurn_some h
  exact (List.getElem?_eq_some_iff.mp he).1

end Libx.Agent
