import Libx.Agent.View

/-!
# Libx.Agent.Query — the Query struct and the parts of query.c that call nobody back

`Query` is `struct xAgentQuery_`.  A released struct is all zeros and has no arrays (`live` is
off); it is the same value `query_alloc` hands out again.  The tool table, the model and the
limits that never change are in `Conf`.
-/

namespace Libx.Agent

/-- A registered tool: what query.c reads of `struct xAgentTool_`.  The handler and the cancel
function are the environment's. -/
structure Tool where
  name : Bytes
  needsConfirm : Bool
  deriving DecidableEq, Repr

/-- `struct xAgentQueryPending_`. -/
structure Call where
  id : Bytes
  name : Bytes
  args : Bytes
  deriving DecidableEq, Repr

/-- `XAGENT_ASYNC_STAGE_*`. -/
inductive Stage
  | awaitingConfirm | running
  deriving DecidableEq, Repr

/-- `struct xAgentQueryAsyncTool_`.  `inv` numbers the handler invocation a Running entry stands
for; the code keeps no such number. -/
structure AsyncTool where
  tool : Tool
  call : Call
  stage : Stage
  resolver : Option ℕ
  inv : ℕ
  deriving DecidableEq, Repr

/-- `struct xAgentToolConfirmResolver_`: `valid` is `r->q != NULL`. -/
structure Resolver where
  valid : Bool
  id : Bytes
  done : Bool
  deriving DecidableEq, Repr

/-- `struct xAgentQuery_`.  `user` says which callback table was stamped in: the session's
forwarders, or the compact Query's table with `on_done` alone.  `firstSeq` is bookkeeping: the
first entry number that the prompt behind `firstRoundPromptTokens` did not contain. -/
structure Query where
  live : Bool := false
  user : Bool := false
  maxTurns : ℤ := 0
  inputs : List Entry := []
  produced : List Entry := []
  assist : Bytes := []
  reasoning : Bytes := []
  pending : List Call := []
  async : List AsyncTool := []
  running : Bool := false
  cancelled : Bool := false
  turn : ℕ := 0
  sawUsage : Bool := false
  usage : Usage := ⟨0, 0, 0⟩
  firstRoundPromptTokens : ℤ := 0
  firstSeq : ℕ := 0

/-- `XAGENT_SESSION_DEFAULT_MAX_TURNS`. -/
def defaultMaxTurns : ℕ := 16

/-- The turn limit of `handle_tool_loop_continuation`. -/
def turnLimit (maxTurns : ℤ) : ℕ := if maxTurns > 0 then maxTurns.toNat else defaultMaxTurns

/-- `find_tool`. -/
def findTool (tools : List Tool) (name : Bytes) : Option Tool := tools.find? (fun t => t.name = name)

/-- `xAgentQueryCreate` on the struct `q` that `query_alloc` handed out: only the buffers, which
Create does not touch, are carried over. -/
def queryCreate (user : Bool) (maxTurns : ℤ) (q : Query) : Query :=
  { live := true, user := user, maxTurns := maxTurns, assist := q.assist, reasoning := q.reasoning
    usage := ⟨-1, -1, -1⟩, firstRoundPromptTokens := -1 }

/-! ### Usage -/

/-- `XAGENT_FOLD_MAX`. -/
def foldMax (total round : ℤ) : ℤ :=
  if round ≥ 0 then (if total < 0 then round else if total > round then total else round) else total

/-- `XAGENT_FOLD_ADD`. -/
def foldAdd (total round : ℤ) : ℤ :=
  if round ≥ 0 then (if total < 0 then round else total + round) else total

/-- `usage_accumulate`; `seq` is the entry count of the prompt the round reports on. -/
def usageAccumulate (q : Query) (round : Option Usage) (seq : ℕ) : Query :=
  match round with
  | none => q
  | some u =>
    let q := { q with
      sawUsage := true
      usage := ⟨foldMax q.usage.promptTokens u.promptTokens,
        foldAdd q.usage.completionTokens u.completionTokens,
        foldAdd q.usage.totalTokens u.totalTokens⟩ }
    if q.turn = 1 ∧ u.promptTokens ≥ 0 ∧ q.firstRoundPromptTokens < 0 then
      { q with firstRoundPromptTokens := u.promptTokens, firstSeq := seq }
    else q

theorem usageAccumulate_frame (q : Query) (round : Option Usage) (seq : ℕ) :
    ∃ saw us first fs, usageAccumulate q round seq =
      { q with sawUsage := saw, usage := us, firstRoundPromptTokens := first, firstSeq := fs } := by
  cases round with
  | none => exact ⟨_, _, _, _, rfl⟩
  | some u =>
    unfold usageAccumulate
    dsimp only
    split_ifs
    · exact ⟨_, _, _, _, rfl⟩
    · exact ⟨_, _, _, _, rfl⟩

/-! ### Assistant turn and terminal reason -/

/-- The entries `commit_assistant_turn` appends: thinking, text, then every buffered call. -/
def assistantTurn (q : Query) : List Entry :=
  (if q.reasoning = [] then [] else [.thinking q.reasoning]) ++
  (if q.assist = [] then [] else [.text .assistant q.assist]) ++
  q.pending.map (fun p => .toolUse p.id p.name p.args)

/-- Append to `produced_arr`; a released struct has no array and the push fails. -/
def Query.append (q : Query) (es : List Entry) : Query :=
  if q.live then { q with produced := q.produced ++ es } else q

theorem append_eq (q : Query) (es : List Entry) :
    q.append es = { q with produced := if q.live then q.produced ++ es else q.produced } := by
  unfold Query.append
  split_ifs <;> rfl

theorem append_frame (q : Query) (es : List Entry) : ∃ p, q.append es = { q with produced := p } :=
  ⟨_, append_eq q es⟩

@[simp] theorem append_nil (q : Query) : q.append [] = q := by
  simp [append_eq]

theorem append_live (q : Query) (es : List Entry) (h : q.live = true) :
    q.append es = { q with produced := q.produced ++ es } := if_pos h

theorem append_async (q : Query) (es : List Entry) : (q.append es).async = q.async := by
  rw [append_eq]

/-- `commit_assistant_turn`. -/
def commitAssistantTurn (q : Query) : Query := q.append (assistantTurn q)

/-- `translate_terminal`. -/
def translateTerminal (r : ProviderStop) (userCancel : Bool) : DoneReason :=
  if userCancel then .aborted else
  match r with
  | .endTurn => .completed
  | .maxTokens => .completed
  | .stopSeq => .stopped
  | .promptLong => .promptTooLong
  | .error => .modelError
  | .cancelled => .aborted
  | .toolUse => .toolError

/-! ### Streaming callbacks -/

/-- `on_provider_text`. -/
def onProviderText (q : Query) (chunk : Bytes) : Query :=
  if q.cancelled then q else { q with assist := q.assist ++ chunk }

/-- `on_provider_thinking`. -/
def onProviderThinking (q : Query) (chunk : Bytes) : Query :=
  if q.cancelled then q else { q with reasoning := q.reasoning ++ chunk }

/-- `on_provider_tool_call` and `pending_append`; `none` is a NULL string. -/
def onProviderToolCall (q : Query) (id name args : Option Bytes) : Query :=
  if q.cancelled || !q.live then q
  else { q with
    pending := q.pending ++ [⟨id.getD [], name.getD [], args.getD (bytes "\x7b\x7d")⟩] }

theorem onProviderText_frame (q : Query) (chunk : Bytes) :
    ∃ a, onProviderText q chunk = { q with assist := a } := by
  unfold onProviderText
  split_ifs
  · exact ⟨_, rfl⟩
  · exact ⟨_, rfl⟩

theorem onProviderThinking_frame (q : Query) (chunk : Bytes) :
    ∃ a, onProviderThinking q chunk = { q with reasoning := a } := by
  unfold onProviderThinking
  split_ifs
  · exact ⟨_, rfl⟩
  · exact ⟨_, rfl⟩

theorem onProviderToolCall_frame (q : Query) (id name args : Option Bytes) :
    ∃ p, onProviderToolCall q id name args = { q with pending := p } := by
  unfold onProviderToolCall
  split_ifs
  · exact ⟨_, rfl⟩
  · exact ⟨_, rfl⟩

/-! ### Tool results -/

/-- What a handler leaves in `out`, and what a completion passes as `result`. -/
inductive ToolOut
  | result (output : Bytes) (isError : Bool)
  | text (text : Bytes)
  | none
  deriving DecidableEq, Repr

/-- A `snprintf` into `char err_buf[256]`. -/
def errBuf (b : Bytes) : Bytes := b.take 255

/-- The result of an unknown tool (`dispatch_pending_tools`). -/
def unknownToolResult (c : Call) : Entry :=
  .toolResult c.id
    (errBuf (bytes "tool \"" ++ c.name ++ bytes "\" is not registered on this agent")) true

/-- The result of a handler that did not return `xErrno_Pending` (`invoke_tool_inline_`). -/
def resultOf (id : Bytes) (trc : Errno) (out : ToolOut) : Entry :=
  if trc ≠ .ok then
    .toolResult id
      (errBuf (bytes "tool handler returned error (xErrno=" ++ decimal trc.code ++ bytes ")")) true
  else match out with
  | .result o isError => .toolResult id o isError
  | _ => .toolResult id (bytes "tool handler did not produce a tool_result") true

/-- The result of a completion (`ai_query_async_tool_complete`). -/
def completionOf (c : Call) (out : ToolOut) : Entry :=
  match out with
  | .result o isError => .toolResult c.id o isError
  | .text t => .toolResult c.id t false
  | .none =>
    .toolResult c.id
      (errBuf (bytes "async tool \"" ++ c.name ++ bytes "\" on_done supplied no result")) true

/-- The result of a rejected call (`xAgentToolConfirmResolve`); `[]` is a NULL or empty reason. -/
def rejectedResult (id reason : Bytes) : Entry :=
  .toolResult id (if reason = [] then bytes "rejected by user" else reason) true

def Entry.resultId : Entry → Option Bytes
  | .toolResult id _ _ => some id
  | _ => none

@[simp] theorem unknownToolResult_id (c : Call) : (unknownToolResult c).resultId = some c.id := rfl

@[simp] theorem resultOf_id (id : Bytes) (trc : Errno) (out : ToolOut) :
    (resultOf id trc out).resultId = some id := by
  unfold resultOf
  split_ifs
  · rfl
  · cases out <;> rfl

@[simp] theorem completionOf_id (c : Call) (out : ToolOut) :
    (completionOf c out).resultId = some c.id := by
  cases out <;> rfl

@[simp] theorem rejectedResult_id (id reason : Bytes) :
    (rejectedResult id reason).resultId = some id := rfl

/-! ### The async array -/

/-- `async_pending_remove`: the first entry with the id, and the array without it. -/
def asyncPendingRemove (id : Bytes) : List AsyncTool → Option (AsyncTool × List AsyncTool)
  | [] => none
  | a :: as =>
    if a.call.id = id then some (a, as)
    else (asyncPendingRemove id as).map (fun r => (r.1, a :: r.2))

theorem asyncPendingRemove_some : ∀ {id : Bytes} {as : List AsyncTool} {a : AsyncTool}
    {rest : List AsyncTool}, asyncPendingRemove id as = some (a, rest) →
    ∃ pre post, as = pre ++ a :: post ∧ rest = pre ++ post ∧ a.call.id = id ∧
      ∀ b ∈ pre, b.call.id ≠ id
  | _, [], _, _, h => by simp [asyncPendingRemove] at h
  | id, b :: as, a, rest, h => by
    unfold asyncPendingRemove at h
    split_ifs at h with hb
    · injection h with h
      injection h with h1 h2
      exact ⟨[], as, by simp [h1], by simp [h2], h1 ▸ hb, by simp⟩
    · rw [Option.map_eq_some_iff] at h
      obtain ⟨⟨a', rest'⟩, hr, he⟩ := h
      injection he with h1 h2
      subst h1
      obtain ⟨pre, post, rfl, rfl, hid, hpre⟩ := asyncPendingRemove_some hr
      refine ⟨b :: pre, post, rfl, h2.symm, hid, ?_⟩
      intro x hx
      rcases List.mem_cons.mp hx with rfl | hx
      · exact hb
      · exact hpre x hx

theorem asyncPendingRemove_mem {id : Bytes} {as : List AsyncTool} {a : AsyncTool}
    {rest : List AsyncTool} (h : asyncPendingRemove id as = some (a, rest)) :
    a ∈ as ∧ ∀ b ∈ rest, b ∈ as := by
  obtain ⟨pre, post, rfl, rfl, -, -⟩ := asyncPendingRemove_some h
  refine ⟨by simp, ?_⟩
  intro b hb
  rcases List.mem_append.mp hb with h1 | h1
  · exact List.mem_append_left _ h1
  · exact List.mem_append_right _ (List.mem_cons_of_mem _ h1)

theorem asyncPendingRemove_none {id : Bytes} {as : List AsyncTool} :
    asyncPendingRemove id as = none ↔ ∀ a ∈ as, a.call.id ≠ id := by
  induction as with
  | nil => simp [asyncPendingRemove]
  | cons b as ih =>
    unfold asyncPendingRemove
    split_ifs with hb
    · simp [hb]
    · simp [ih, hb]

end Libx.Agent
