import Libx.Agent.Query
import Libx.Agent.Budget

/-!
# Libx.Agent.Session — the Session record and the parts of session.c that call nobody back

`Session` is what `struct xAgentSession_` keeps between calls: the history, the token
bookkeeping, the compact boundary and `persisted_prefix`.  A history entry carries a number
(`Slot.uid`) that the code does not store: it tells two entries with equal contents apart.
Allocation failures are decided by the environment (`InputEnv`).
-/

namespace Libx.Agent

open List

/-- A history entry and its number. -/
structure Slot where
  uid : ℕ
  entry : Entry
  deriving DecidableEq, Repr

def entries (h : List Slot) : List Entry := h.map Slot.entry

/-- Number entries from `u` on. -/
def slotsFrom : ℕ → List Entry → List Slot
  | _, [] => []
  | u, e :: es => ⟨u, e⟩ :: slotsFrom (u + 1) es

theorem slotsFrom_uid {u : ℕ} {es : List Entry} {x : Slot} (h : x ∈ slotsFrom u es) :
    u ≤ x.uid ∧ x.uid < u + es.length := by
  induction es generalizing u with
  | nil => exact absurd h (by simp [slotsFrom])
  | cons e es ih =>
    rcases mem_cons.mp h with h1 | h1
    · subst h1
      rw [length_cons]
      exact ⟨le_rfl, by show u < _; omega⟩
    · obtain ⟨h2, h3⟩ := ih h1
      rw [length_cons]
      omega

@[simp] theorem slotsFrom_length (u : ℕ) (es : List Entry) : (slotsFrom u es).length = es.length := by
  induction es generalizing u with
  | nil => rfl
  | cons e es ih => rw [slotsFrom, length_cons, length_cons, ih]

theorem slotsFrom_entry {u : ℕ} {es : List Entry} {x : Slot} (h : x ∈ slotsFrom u es) :
    x.entry ∈ es := by
  induction es generalizing u with
  | nil => exact absurd h (by simp [slotsFrom])
  | cons e es ih =>
    rcases mem_cons.mp h with h1 | h1
    · rw [h1]
      exact mem_cons_self
    · exact mem_cons_of_mem _ (ih h1)

theorem slotsFrom_nodup (u : ℕ) (es : List Entry) : ((slotsFrom u es).map Slot.uid).Nodup := by
  induction es generalizing u with
  | nil => exact nodup_nil
  | cons e es ih =>
    refine nodup_cons.mpr ⟨?_, ih (u + 1)⟩
    intro hm
    obtain ⟨x, hx, hk⟩ := mem_map.mp hm
    have := (slotsFrom_uid hx).1
    have hk : x.uid = u := hk
    omega

theorem exists_slotsFrom (es : List Entry) {u n : ℕ} (h1 : u ≤ n) (h2 : n < u + es.length) :
    ∃ x ∈ slotsFrom u es, x.uid = n := by
  induction es generalizing u with
  | nil =>
    rw [length_nil] at h2
    omega
  | cons e es ih =>
    by_cases he : u = n
    · exact ⟨_, mem_cons_self, he⟩
    · rw [length_cons] at h2
      obtain ⟨x, hx, hk⟩ := ih (u := u + 1) (by omega) (by omega)
      exact ⟨x, mem_cons_of_mem _ hx, hk⟩

/-- `xAgentBudgetPolicy`. -/
inductive BudgetPolicy
  | disabled | error | summarize
  deriving DecidableEq, Repr

/-- What a session is created with and never changes: the agent's tools, the callbacks that are
wired, the limits, the budget conf less its window, and whether a memory store is attached.  An
empty system prompt stands for NULL too. -/
structure Conf where
  tools : List Tool := []
  hasConfirm : Bool := false
  systemPrompt : Bytes := []
  maxTurns : ℤ := 0
  maxTokens : ℤ := 0
  policy : BudgetPolicy := .disabled
  headTurns : UInt64 := 0
  tailTurns : UInt64 := 0
  hasMemory : Bool := false

/-- `struct xAgentSession_`. -/
structure Session where
  history : List Slot := []
  compacting : Bool := false
  compactStart : ℕ := 0
  compactEnd : ℕ := 0
  lastCompactHistoryLen : ℕ := 0
  knownPromptTokens : ℤ := -1
  deltaEntries : ℕ := 0
  lastGateTotal : ℕ := 0
  lastFirstRoundPromptTokens : ℤ := -1
  overheadTokens : ℕ := 0
  pendingText : Option Bytes := none
  persistedPrefix : ℕ := 0
  contextWindow : ℕ := 0
  deriving DecidableEq

/-- What the library finds in its environment during one step: the memory block the store's hits
render to, which allocations succeed (`trimOk` by the entry's number), and what the provider's
submit returns.  A provider that refuses a submit makes no call. -/
structure InputEnv where
  memText : Option Bytes := none
  trimOk : ℕ → Bool := fun _ => true
  saveOk : Bool := true
  compactViewOk : Bool := true
  compactMsgsOk : Bool := true
  appendOk : Bool := true
  viewOk : Bool := true
  createOk : Bool := true
  copyOk : Bool := true
  summaryOk : Bool := true
  submitRc : Errno := .ok

/-! ### Token bookkeeping -/

/-- `session_budget_limit_`. -/
def sessionBudgetLimit (s : Session) : ℕ :=
  if s.contextWindow > 0 then s.contextWindow else defaultMaxTokens

/-- The entries `session_estimate_current_` charges on top of the known prompt: `delta_entries`
of them from `hist_len - delta_entries` on. -/
def deltaSlice (s : Session) : List Entry :=
  ((entries s.history).drop (s.history.length - s.deltaEntries)).take s.deltaEntries

/-- The known prompt less the overhead, floored at zero. -/
def knownBase (s : Session) : ℕ := s.knownPromptTokens.toNat - s.overheadTokens

/-- `session_estimate_current_`. -/
def sessionEstimateCurrent (s : Session) : ℕ :=
  if s.knownPromptTokens ≥ 0 ∧ s.deltaEntries > 0 then knownBase s + estimateTokens (deltaSlice s)
  else if s.knownPromptTokens ≥ 0 ∧ s.deltaEntries = 0 then knownBase s
  else estimateTokens (entries s.history)

/-- `session_update_overhead_tokens_`. -/
def overheadOf (systemPrompt : Bytes) (memText : Option Bytes) : ℕ :=
  (if systemPrompt = [] then 0 else systemPrompt.length / bytesPerToken + perMsgTokens) +
  match memText with
  | none => 0
  | some t => t.length / bytesPerToken + perMsgTokens

/-! ### Trimming -/

/-- Trim one entry if it qualifies and the marker can be allocated. -/
def trimSlot (ok : ℕ → Bool) (x : Slot) : Slot :=
  if x.entry.trimmable && ok x.uid then { x with entry := x.entry.trim } else x

theorem trimSlot_uid (ok : ℕ → Bool) (x : Slot) : (trimSlot ok x).uid = x.uid := by
  unfold trimSlot
  split_ifs
  · rfl
  · rfl

/-- `session_trim_consumed_tool_results_`. -/
def sessionTrim (ok : ℕ → Bool) (s : Session) : Session :=
  if s.history.any (fun x => x.entry.trimmable && ok x.uid) then
    { s with history := s.history.map (trimSlot ok), knownPromptTokens := -1, deltaEntries := 0 }
  else s

/-! ### The submit view -/

/-- `sess_input_view_build`: system prompt, memory block, then the folded history. -/
def sessInputViewBuild (conf : Conf) (memText : Option Bytes) (hist : List Slot) (viewOk : Bool) :
    Except Errno (List Message) :=
  let sys := if conf.systemPrompt = [] then [] else [⟨.system, [.text conf.systemPrompt]⟩]
  let mem := match memText with
    | none => []
    | some t => [⟨.system, [.text t]⟩]
  let msgs : List Message := sys ++ mem ++ view (entries hist)
  if msgs = [] then .error .invalidArg
  else if !viewOk then .error .noMemory
  else .ok msgs

/-! ### The budget gate -/

/-- `XAGENT_SUMMARY_INSTRUCT_PROMPT` for `keep` messages. -/
def summaryInstruct (keep : ℕ) : Bytes :=
  bytes "The conversation above has grown too long and must be compressed. Please summarise the " ++
  decimal keep ++
  bytes " messages above so that the conversation can continue with this summary in place of the originals. Be as concise as possible while preserving all names, numbers, decisions and key facts. Do NOT add any information that was not in the original messages."

/-- What the gate decides: let the message through, refuse it, or launch a compact Query on
`msgs`. -/
inductive GateResult
  | pass (s : Session)
  | refuse (rc : Errno) (s : Session)
  | launch (s : Session) (msgs : List Message)

def GateResult.session : GateResult → Session
  | .pass s => s
  | .refuse _ s => s
  | .launch s _ => s

/-- `effective_limit`. -/
def effectiveLimit (conf : Conf) (s : Session) : ℕ :=
  let reserve := if conf.maxTokens > 0 then conf.maxTokens.toNat else 0
  if sessionBudgetLimit s > s.overheadTokens + reserve then
    sessionBudgetLimit s - s.overheadTokens - reserve
  else 0

/-- The gate's estimate for the message with blocks `cs`. -/
def gateEstimate (s : Session) (cs : List Content) : ℕ :=
  sessionEstimateCurrent s + estimateIncomingUserTokens cs

def gatePassed (s : Session) (estimated : ℕ) : Session :=
  { s with lastCompactHistoryLen := 0, lastGateTotal := estimated }

/-- `user_count`, a `size_t`. -/
def userTurns (s : Session) : UInt64 := UInt64.ofNat (userCount (entries s.history))

/-- `compact_start` and `compact_end`, when both exist and the range is not empty. -/
def compactRange (conf : Conf) (s : Session) : Option (ℕ × ℕ) :=
  let es := entries s.history
  match findUserTurn es conf.headTurns.toNat,
    (if conf.tailTurns = 0 then some es.length
      else findUserTurn es (userTurns s - conf.tailTurns).toNat) with
  | some start, some stop => if start < stop then some (start, stop) else none
  | _, _ => none

/-- Save the text of the message for the retry after the compact. -/
def savePending (ok : Bool) (cs : List Content) (s : Session) : Session :=
  if textOf cs ≠ [] ∧ ok = true then { s with pendingText := some (textOf cs) } else s

/-- Record the compact boundary and the anti-loop state. -/
def markCompact (start stop : ℕ) (s : Session) : Session :=
  { s with compactStart := start, compactEnd := stop, lastCompactHistoryLen := s.history.length }

/-- The Summarize branch of the gate, after trimming did not help. -/
def summarizeBranch (conf : Conf) (cs : List Content) (env : InputEnv) (s : Session) : GateResult :=
  if userTurns s = 0 then .refuse .promptTooLong s
  else if conf.headTurns + conf.tailTurns ≥ userTurns s then .refuse .promptTooLong s
  else match compactRange conf s with
  | none => .refuse .promptTooLong s
  | some (start, stop) =>
    if s.lastCompactHistoryLen > 0 ∧ s.history.length ≤ s.lastCompactHistoryLen then
      .refuse .promptTooLong s
    else if s.compacting then .refuse .busy s
    else
      let s := markCompact start stop (savePending env.saveOk cs s)
      match sessInputViewBuild conf none (s.history.take stop) env.compactViewOk with
      | .error _ => .refuse .promptTooLong s
      | .ok msgs =>
        if !env.compactMsgsOk then .refuse .promptTooLong s
        else .launch s (msgs ++ [⟨.user, [.text (summaryInstruct (stop - start))]⟩])

/-- `session_enforce_budget_`, up to the creation of the compact Query. -/
def sessionEnforceBudget (conf : Conf) (cs : List Content) (env : InputEnv) (s : Session) :
    GateResult :=
  if conf.policy = .disabled then .pass s
  else
    let limit := effectiveLimit conf s
    if gateEstimate s cs ≤ limit then .pass (gatePassed s (gateEstimate s cs))
    else
      let s := sessionTrim env.trimOk s
      if gateEstimate s cs ≤ limit then .pass (gatePassed s (gateEstimate s cs))
      else match conf.policy with
      | .error => .refuse .promptTooLong s
      | .summarize => summarizeBranch conf cs env s
      | .disabled => .refuse .promptTooLong s

/-! ### The end of a compact -/

def textPayload : Entry → Bytes
  | .text _ t => t
  | _ => []

def thinkingPayload : Entry → Bytes
  | .thinking t => t
  | _ => []

/-- The summary of a compact run: its text, or its thinking when there is no text. -/
def summaryBytes (produced : List Entry) : Bytes :=
  let text := produced.flatMap textPayload
  if text = [] then produced.flatMap thinkingPayload else text

/-- `"[summary] "` and the summary. -/
def summaryEntry (produced : List Entry) : Entry :=
  .text .summary (bytes "[summary] " ++ summaryBytes produced)

/-- The entries a compact writes to the store before it drops them: what `persisted_prefix` does
not cover of the range. -/
def compactBatch (s : Session) : List Slot :=
  let skip := if s.persistedPrefix > s.compactStart then min s.persistedPrefix s.compactEnd
    else s.compactStart
  (s.history.drop skip).take (s.compactEnd - skip)

/-- `xArrayRemoveRange`: out of range nothing is removed. -/
def removeRange (h : List Slot) (start count : ℕ) : List Slot :=
  if start + count ≤ h.length then h.take start ++ h.drop (start + count) else h

/-- The prefix after the range is removed and the summary counted in. -/
def compactPrefix (s : Session) : ℕ :=
  let p := if s.persistedPrefix > s.compactStart then
      s.persistedPrefix - (min s.persistedPrefix s.compactEnd - s.compactStart)
    else s.persistedPrefix
  if p < s.compactStart + 1 then s.compactStart + 1 else p

/-- The splice of `sess_fwd_on_done`: remove the range, insert the summary at its start.  The
insert needs no memory, since the range was not empty. -/
def spliceSummary (s : Session) (summary : Slot) : Session :=
  let h := removeRange s.history s.compactStart (s.compactEnd - s.compactStart)
  { s with
    history := h.take s.compactStart ++ summary :: h.drop s.compactStart
    persistedPrefix := compactPrefix s
    knownPromptTokens := -1
    deltaEntries := 0 }

theorem mem_of_mem_compactBatch {s : Session} {y : Slot} (h : y ∈ compactBatch s) : y ∈ s.history :=
  mem_of_mem_drop (mem_of_mem_take h)

theorem mem_of_mem_removeRange {h : List Slot} {start count : ℕ} {y : Slot}
    (hy : y ∈ removeRange h start count) : y ∈ h := by
  unfold removeRange at hy
  split_ifs at hy
  · rcases mem_append.mp hy with h1 | h1
    · exact mem_of_mem_take h1
    · exact mem_of_mem_drop h1
  · exact hy

theorem mem_spliceSummary {s : Session} {z y : Slot} (h : y ∈ (spliceSummary s z).history) :
    y = z ∨ y ∈ s.history := by
  rcases mem_append.mp h with h1 | h1
  · exact .inr (mem_of_mem_removeRange (mem_of_mem_take h1))
  · rcases mem_cons.mp h1 with h2 | h2
    · exact .inl h2
    · exact .inr (mem_of_mem_removeRange (mem_of_mem_drop h2))

end Libx.Agent
