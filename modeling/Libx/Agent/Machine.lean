import Libx.Agent.Session
import Libx.Core.Run
import Libx.Core.SinceLast

/-!
# Libx.Agent.Machine — one session, its Query and everything that may call into them

The state machine of a session: the Session, its one Query struct, the call stack of callbacks in
progress, the resolvers handed to the host, the submits the provider has accepted and not
finished, and the memory store.  A step is one call into the library from outside (the host, the
provider, a tool) or the return of a callback; the library's own code then runs to the next
callback or to its return.  Any call may come in at any point, so every re-entrant order of events
is a run.

Callbacks after which the library does nothing more (`on_text`, `on_thinking`) have no frame; a
NULL callback is one that does nothing.  Allocation inside query.c succeeds.
-/

namespace Libx.Agent

open Option

/-- Where an invocation of a tool handler was made from. -/
inductive InvokeKind
  | dispatch (i : ℕ)
  | allow (r : ℕ)
  deriving DecidableEq, Repr

/-- Who called `xAgentQueryRun`: `xAgentSessionInput`, with the history length to roll back to, or
the gate.  `auto` marks the retry after a compact, whose return code nobody sees. -/
inductive RunKind
  | user (checkpoint : ℕ) (auto : Bool)
  | compact (auto : Bool)
  deriving DecidableEq, Repr

/-- The call of `submit_round`: from `xAgentQueryRun`, from the tool loop, or from one of the
three tails that find no pending entry. -/
inductive SubmitKind
  | run (k : RunKind)
  | loop
  | async
  | reject
  | allow
  deriving DecidableEq, Repr

/-- What the loop over the async entries was started for. -/
inductive CancelKind
  | cancel
  | queryDestroy
  | sessionDestroy
  deriving DecidableEq, Repr

/-- An invocation of a handler: the tool and its input.  `owner` is the resolver of the entry it
came from (`none` straight from dispatch, or for an entry that was not awaiting a decision) and
`confirmSet` tells whether the Query has an `on_tool_confirm`; the code keeps neither. -/
structure Invocation where
  tool : Tool
  call : Call
  owner : Option ℕ
  confirmSet : Bool
  deriving DecidableEq, Repr

/-- A callback in progress. -/
inductive Frame
  | confirm (i : ℕ)
  | toolStart (k : InvokeKind) (v : Invocation)
  | handler (k : InvokeKind) (v : Invocation) (inv : ℕ)
  | toolDone (k : InvokeKind)
  | completeDone
  | errFinish (reason : DoneReason)
  | provErr (userCancel : Bool)
  | submit (k : SubmitKind)
  | provCancel (k : CancelKind)
  | cancelTool (i : ℕ) (k : CancelKind)
  | sessDone
  | compactDone
  deriving DecidableEq, Repr

/-- A submit the provider has accepted (or is being handed) and has not finished: the run and the
round it belongs to, and the entry number its prompt stops before. -/
structure Flight where
  serial : ℕ
  run : ℕ
  turn : ℕ
  seq : ℕ
  deriving DecidableEq, Repr

/-- Events. -/
inductive Obs
  | submitted (serial run turn limit : ℕ) (msgs : List Message) (produced : List Entry)
  | provDone (run turn : ℕ)
  | asked (r : ℕ) (c : Call)
  | decided (r : ℕ) (d : Decision)
  | invoked (inv : ℕ) (v : Invocation) (cause : Option ℕ)
  | done (run : ℕ) (reason : DoneReason)
  | inputRet (rc : Errno)
  deriving DecidableEq

/-- A session, its Query and their surroundings.  `run`, `nextSerial`, `nextUid`, `calls`,
`delivered`, `promptSeq`, `rolledBack` and `trace` are bookkeeping that the code does not keep. -/
structure State where
  conf : Conf := {}
  sess : Session := {}
  alive : Bool := true
  q : Query := {}
  stack : List Frame := []
  resolvers : List Resolver := []
  flights : List Flight := []
  store : List Slot := []
  run : ℕ := 0
  nextSerial : ℕ := 0
  nextUid : ℕ := 0
  calls : List Call := []
  delivered : List ℕ := []
  promptSeq : ℕ := 0
  rolledBack : List ℕ := []
  trace : List Obs := []

/-- The run reported the size of its first prompt. -/
def Query.measured (q : Query) : Bool := q.sawUsage && decide (q.firstRoundPromptTokens > 0)

/-- `q->cbs.on_tool_confirm != NULL`. -/
def State.confirmSet (s : State) : Bool := s.q.user && s.conf.hasConfirm

namespace State

def emit (o : Obs) (s : State) : State := { s with trace := o :: s.trace }

def push (f : Frame) (s : State) : State := { s with stack := f :: s.stack }

/-- Push entries onto `history_arr`. -/
def pushHistory (es : List Entry) (s : State) : State :=
  { s with
    sess := { s.sess with history := s.sess.history ++ slotsFrom s.nextUid es }
    nextUid := s.nextUid + es.length }

/-- `xAgentMemoryAppend`, which drops the batch when no store is attached. -/
def memoryAppend (batch : List Slot) (s : State) : State :=
  { s with store := if s.conf.hasMemory then s.store ++ batch else s.store }

/-- The rollback loop of `xAgentSessionInput`: pop the history down to the checkpoint. -/
def rollback (checkpoint : ℕ) (s : State) : State :=
  { s with
    sess := { s.sess with history := s.sess.history.take checkpoint }
    rolledBack := s.rolledBack ++ (s.sess.history.drop checkpoint).map Slot.uid }

/-- The return of `xAgentSessionInput`. -/
def returnInput (auto : Bool) (rc : Errno) (s : State) : State :=
  { s with trace := if auto then s.trace else .inputRet rc :: s.trace }

/-! ### Release -/

/-- `confirm_resolver_invalidate_`. -/
def invalidate (rs : List Resolver) : Option ℕ → List Resolver
  | none => rs
  | some r => rs.modify r (fun v => { v with valid := false })

/-- The second half of `xAgentQueryDestroy`: detach, release the arrays (which invalidates the
resolvers of the entries still in `async_pending_arr`) and zero the struct. -/
def queryRelease (s : State) : State :=
  { s with
    resolvers := s.q.async.foldl (fun rs a => invalidate rs a.resolver) s.resolvers
    q := {} }

/-! ### Submit -/

/-- A `xAgentQueryRun` that fails: the caller destroys the Query and undoes its own part. -/
def runFailed (k : RunKind) (rc : Errno) (s : State) : State :=
  let s := { s with q := { s.q with running := false, turn := 0 } }
  match k with
  | .user checkpoint auto => returnInput auto rc (rollback checkpoint (queryRelease s))
  | .compact auto =>
    returnInput auto .promptTooLong
      (queryRelease { s with sess := { s.sess with compacting := false } })

/-- A `submit_round` that fails with `rc`: `xAgentQueryRun` returns it, every other caller reports
to `on_error` and finalises. -/
def submitFailed (k : SubmitKind) (rc : Errno) (s : State) : State :=
  match k with
  | .run rk => runFailed rk rc s
  | _ => s.push (.errFinish .modelError)

/-- The part of `submit_round` before the provider is called. -/
def prepareRound (msgs : List Message) (s : State) : State :=
  { s with
    q := { s.q with assist := [], reasoning := [], pending := [], turn := s.q.turn + 1 }
    nextSerial := s.nextSerial + 1
    trace := .submitted s.nextSerial s.run (s.q.turn + 1) (turnLimit s.q.maxTurns) msgs
      s.q.produced :: s.trace }

/-- `submit_round`: up to the return of a provider that refuses, or into one that accepts. -/
def submitRound (k : SubmitKind) (env : InputEnv) (s : State) : State :=
  match viewBuild s.q.inputs s.q.produced with
  | .error rc => submitFailed k rc s
  | .ok msgs =>
    if env.submitRc = .ok then
      { prepareRound msgs s with
        flights := ⟨s.nextSerial, s.run, s.q.turn + 1, s.nextUid⟩ :: s.flights
        stack := .submit k :: s.stack }
    else submitFailed k env.submitRc (prepareRound msgs s)

/-- `xAgentQueryCreate` for the session, after its allocations succeeded. -/
def create (user : Bool) (maxTurns : ℤ) (s : State) : State :=
  { s with q := queryCreate user maxTurns s.q, run := s.run + 1 }

/-- `xAgentQueryRun` on a Query fresh from `create`. -/
def queryRun (k : RunKind) (msgs : List Message) (env : InputEnv) (s : State) : State :=
  if env.copyOk then
    submitRound (.run k) env
      { s with q := { s.q with inputs := turnBufAppend msgs, running := true } }
  else runFailed k .noMemory s

/-! ### Input -/

/-- `xAgentSessionInput` from the append of the user message on. -/
def acceptInput (auto : Bool) (msg : Message) (env : InputEnv) (s : State) : State :=
  let checkpoint := s.sess.history.length
  if !env.appendOk then returnInput auto .noMemory s
  else
    let s := pushHistory [.text msg.role (textOf msg.contents)] s
    let s := { s with sess := { s.sess with deltaEntries := s.sess.deltaEntries + 1 } }
    match sessInputViewBuild s.conf env.memText s.sess.history env.viewOk with
    | .error rc => returnInput auto rc (rollback checkpoint s)
    | .ok msgs =>
      let s := { s with sess :=
        { s.sess with overheadTokens := overheadOf s.conf.systemPrompt env.memText } }
      if !env.createOk then returnInput auto .noMemory (rollback checkpoint s)
      else queryRun (.user checkpoint auto) msgs env (create true s.conf.maxTurns s)

/-- `xAgentSessionInput`. -/
def sessionInput (auto : Bool) (msg : Message) (env : InputEnv) (s : State) : State :=
  if s.q.live || s.sess.compacting then returnInput auto .busy s
  else match sessionEnforceBudget s.conf msg.contents env s.sess with
  | .refuse rc x => returnInput auto rc { s with sess := x }
  | .launch x msgs =>
    if !env.createOk then returnInput auto .noMemory { s with sess := x }
    else queryRun (.compact auto) msgs env
      (create false 1 { s with sess := { x with compacting := true } })
  | .pass x => acceptInput auto msg env { s with sess := x }

/-- `session_auto_retry_pending_`. -/
def autoRetryPending (env : InputEnv) (s : State) : State :=
  match s.sess.pendingText with
  | none => s
  | some t =>
    sessionInput true ⟨.user, [.text t]⟩ env { s with sess := { s.sess with pendingText := none } }

/-! ### The end of a run -/

/-- `sess_fwd_on_done` for a compact that produced a summary: persist the range, splice, persist
the summary. -/
def compactSucceeded (s : State) : State :=
  let summary : Slot := ⟨s.nextUid, summaryEntry s.q.produced⟩
  let s := memoryAppend (compactBatch s.sess) s
  let s := { s with sess := spliceSummary s.sess summary, nextUid := s.nextUid + 1 }
  memoryAppend [summary] s

/-- `sess_fwd_on_done`, compact branch, up to the `CompactDone` event. -/
def compactFinished (summaryOk : Bool) (s : State) : State :=
  let s := if summaryBytes s.q.produced ≠ [] ∧ summaryOk = true then compactSucceeded s else s
  let s := { s with sess := { s.sess with compacting := false, compactStart := 0, compactEnd := 0 } }
  (queryRelease s).push .compactDone

/-- The token bookkeeping of `sess_fwd_on_done`. -/
def recordUsage (s : State) : State :=
  { s with
    sess := { s.sess with
      knownPromptTokens :=
        if s.q.measured then s.q.firstRoundPromptTokens else s.sess.knownPromptTokens
      deltaEntries := if s.q.measured then 0 else s.sess.deltaEntries
      lastFirstRoundPromptTokens := s.q.firstRoundPromptTokens
      lastGateTotal := 0 }
    promptSeq := if s.q.measured then s.q.firstSeq else s.promptSeq }

/-- `sess_fwd_on_done`, normal branch, up to the caller's `on_done`. -/
def userFinished (s : State) : State :=
  let produced := s.q.produced
  let s := pushHistory produced (recordUsage s)
  let s := { s with sess :=
    { s.sess with deltaEntries := s.sess.deltaEntries + produced.length } }
  s.push .sessDone

/-- `sess_fwd_on_done`. -/
def sessFwdOnDone (env : InputEnv) (s : State) : State :=
  if s.sess.compacting then compactFinished env.summaryOk s else userFinished s

/-- `query_finalize`. -/
def finalize (reason : DoneReason) (env : InputEnv) (s : State) : State :=
  if s.q.running then
    sessFwdOnDone env ({ s with q := { s.q with running := false } }.emit (.done s.run reason))
  else s

/-! ### The tool loop -/

/-- The tail of a completion, a Reject and an Allow: with no entry left, abort or go on. -/
def tailCheck (k : SubmitKind) (env : InputEnv) (s : State) : State :=
  if s.q.async = [] then
    if s.q.cancelled then finalize .aborted env s else submitRound k env s
  else s

/-- `handle_tool_loop_continuation` after `dispatch_pending_tools`. -/
def afterDispatch (env : InputEnv) (s : State) : State :=
  let s := { s with q := { s.q with pending := [] } }
  if s.q.cancelled then finalize .aborted env s
  else if s.q.async ≠ [] then s
  else submitRound .loop env s

/-- `register_confirm_pending_` and the call of `on_tool_confirm`. -/
def askConfirm (i : ℕ) (t : Tool) (c : Call) (s : State) : State :=
  let r := s.resolvers.length
  { s with
    resolvers := s.resolvers ++ [⟨true, c.id, false⟩]
    q := { s.q with async := s.q.async ++ [⟨t, c, .awaitingConfirm, some r, 0⟩] }
    stack := .confirm i :: s.stack
    trace := .asked r c :: s.trace }

/-- The loop of `dispatch_pending_tools` over the calls `cs`, the first of which has index `i`. -/
def dispatchFrom (env : InputEnv) : List Call → ℕ → State → State
  | [], _, s => afterDispatch env s
  | c :: cs, i, s =>
    if s.q.cancelled then afterDispatch env s
    else match findTool s.conf.tools c.name with
    | none => dispatchFrom env cs (i + 1) { s with q := s.q.append [unknownToolResult c] }
    | some t =>
      if t.needsConfirm && s.confirmSet then askConfirm i t c s
      else s.push (.toolStart (.dispatch i) ⟨t, c, none, s.confirmSet⟩)

/-- `dispatch_pending_tools` from index `i` on. -/
def dispatchLoop (i : ℕ) (env : InputEnv) (s : State) : State :=
  dispatchFrom env (s.q.pending.drop i) i s

/-- What follows `invoke_tool_inline_`. -/
def afterInvoke (k : InvokeKind) (env : InputEnv) (s : State) : State :=
  match k with
  | .dispatch i => dispatchLoop (i + 1) env s
  | .allow _ => tailCheck .allow env s

/-- `invoke_tool_inline_` when `on_tool(started=1)` has returned: the handler is called. -/
def callHandler (k : InvokeKind) (v : Invocation) (s : State) : State :=
  let cause := match k with
    | .dispatch _ => none
    | .allow r => some r
  { s with
    calls := s.calls ++ [v.call]
    stack := .handler k v s.calls.length :: s.stack
    trace := .invoked s.calls.length v cause :: s.trace }

/-- `invoke_tool_inline_` when the handler has returned.  On a struct released in the meantime
neither array takes the push, and the caller's error path ends in a `query_finalize` that finds
the run over. -/
def handlerReturned (k : InvokeKind) (v : Invocation) (inv : ℕ) (trc : Errno) (out : ToolOut)
    (env : InputEnv) (s : State) : State :=
  if !s.q.live then s
  else if trc = .pending then
    afterInvoke k env
      { s with q := { s.q with async := s.q.async ++ [⟨v.tool, v.call, .running, none, inv⟩] } }
  else { s with q := s.q.append [resultOf v.call.id trc out] }.push (.toolDone k)

/-- `handle_tool_loop_continuation`. -/
def toolLoop (env : InputEnv) (s : State) : State :=
  if s.q.turn ≥ turnLimit s.q.maxTurns then finalize .maxTurns env s else dispatchLoop 0 env s

/-- `on_provider_done` after `handle_error`. -/
def commitAndBranch (reason : ProviderStop) (userCancel : Bool) (env : InputEnv) (s : State) :
    State :=
  let s := { s with q := commitAssistantTurn s.q }
  if !userCancel && reason = .toolUse && s.q.pending ≠ [] then toolLoop env s
  else finalize (translateTerminal reason userCancel) env s

/-- `on_provider_done`, for a submit whose prompt stopped before entry `seq`. -/
def onProviderDone (reason : ProviderStop) (err : Errno) (usage : Option Usage) (seq : ℕ)
    (env : InputEnv) (s : State) : State :=
  if !s.q.running then s
  else
    let s := { s with q := usageAccumulate s.q usage seq }
    let userCancel := reason = .cancelled || s.q.cancelled
    if reason = .error ∧ err ≠ .ok then s.push (.provErr userCancel)
    else commitAndBranch reason userCancel env s

/-! ### Completions and decisions -/

/-- `ai_query_async_tool_complete`, up to `on_tool(started=0)`. -/
def asyncToolComplete (id : Bytes) (out : ToolOut) (s : State) : State :=
  match asyncPendingRemove id s.q.async with
  | none => s
  | some (a, rest) =>
    { s with q := { s.q with async := rest }.append [completionOf a.call out] }.push .completeDone

/-- `xAgentToolConfirmResolve` on resolver `r`. -/
def toolConfirmResolve (r : ℕ) (v : Resolver) (d : Decision) (reason : Bytes) (env : InputEnv)
    (s : State) : State :=
  if v.done then s
  else
    let s := { s with resolvers := s.resolvers.set r { v with done := true } }.emit (.decided r d)
    if !v.valid then s
    else match asyncPendingRemove v.id s.q.async with
    | none => s
    | some (a, rest) =>
      let s := { s with q := { s.q with async := rest } }
      match d with
      | .reject =>
        tailCheck .reject env { s with q := s.q.append [rejectedResult a.call.id reason] }
      | .allow => s.push (.toolStart (.allow r) ⟨a.tool, a.call, a.resolver, s.confirmSet⟩)

/-! ### Cancel and destroy -/

/-- The finalizing append of `xAgentSessionDestroy`. -/
def sessionFinish (s : State) : State :=
  { memoryAppend
      (s.sess.history.drop (min s.sess.persistedPrefix s.sess.history.length)) s with
    alive := false }

/-- What follows the loop over the async entries. -/
def cancelEnd (k : CancelKind) (s : State) : State :=
  match k with
  | .cancel => s
  | .queryDestroy => queryRelease s
  | .sessionDestroy => sessionFinish (queryRelease s)

/-- The loop over the async entries, from the entries `as`, the first of which has index `i`: the
resolver of an awaiting entry is invalidated, the cancel function of a running one is called. -/
def cancelFrom (k : CancelKind) : List AsyncTool → ℕ → State → State
  | [], _, s => cancelEnd k s
  | a :: as, i, s =>
    match a.stage with
    | .awaitingConfirm =>
      cancelFrom k as (i + 1) { s with resolvers := invalidate s.resolvers a.resolver }
    | .running => s.push (.cancelTool i k)

def cancelLoop (k : CancelKind) (i : ℕ) (s : State) : State :=
  cancelFrom k (s.q.async.drop i) i s

/-- `ai_query_cancel_mark` and `ai_provider_cancel`. -/
def markCancel (k : CancelKind) (s : State) : State :=
  { s with q := { s.q with cancelled := true } }.push (.provCancel k)

/-- `xAgentSessionCancel`, which is `xAgentQueryCancel` on `s->query`. -/
def sessionCancel (s : State) : State :=
  if s.q.live && s.q.running then markCancel .cancel s else s

/-- `xAgentQueryDestroy`, and for a session `xAgentSessionDestroy`. -/
def destroy (k : CancelKind) (s : State) : State :=
  if s.q.running then markCancel k s else cancelEnd k s

end State

/-! ### Create -/

def Slot.isSummary (x : Slot) : Bool := x.entry.role = .summary

/-- What the store hands back for a session: the suffix from the last Summary entry on. -/
def retrieve (store : List Slot) : List Slot := Core.sinceLast Slot.isSummary store

/-- `xAgentCreateSession`: a session primed from the store. -/
def createSession (contextWindow : ℕ) (s : State) : State :=
  let primed := if s.conf.hasMemory then retrieve s.store else []
  { s with
    alive := true
    sess :=
      { history := primed
        persistedPrefix := primed.length
        overheadTokens := overheadOf s.conf.systemPrompt none
        contextWindow := contextWindow } }

/-! ### Steps -/

/-- A call into the library, or the return of the callback on top of the stack.  A completion
names the invocation it is for. -/
inductive Move
  | input (msg : Message)
  | cancel
  | resolve (r : ℕ) (d : Decision) (reason : Bytes)
  | complete (id : Bytes) (out : ToolOut) (inv : ℕ)
  | text (serial : ℕ) (chunk : Bytes)
  | thinking (serial : ℕ) (chunk : Bytes)
  | toolCall (serial : ℕ) (id name args : Option Bytes)
  | done (serial : ℕ) (reason : ProviderStop) (err : Errno) (usage : Option Usage)
  | handlerRet (trc : Errno) (out : ToolOut)
  | ret
  | setContextWindow (n : ℕ)
  | destroy
  | create (contextWindow : ℕ)

/-- A move and the environment an `xAgentSessionInput` inside it would find. -/
structure Label where
  move : Move
  env : InputEnv := {}

open State

/-- The provider has accepted a submit: `xAgentSessionInput` returns what its part of the call
comes to. -/
def submitAccepted (k : SubmitKind) (s : State) : State :=
  match k with
  | .run (.user _ auto) => returnInput auto .ok s
  | .run (.compact auto) => returnInput auto .busy s
  | _ => s

/-- The submit with number `serial` is outstanding. -/
def State.inFlight (s : State) (serial : ℕ) : Bool := s.flights.any (fun f => f.serial = serial)

/-- The submit with number `serial` is over. -/
def State.land (serial : ℕ) (s : State) : State :=
  { s with flights := s.flights.filter (fun f => f.serial ≠ serial) }

/-- The callback `f` returns. -/
def frameReturned (env : InputEnv) (f : Frame) (s : State) : Option State :=
  match f with
  | .confirm i => some (dispatchLoop (i + 1) env s)
  | .toolStart k v => some (callHandler k v s)
  | .toolDone k => some (afterInvoke k env s)
  | .completeDone => some (tailCheck .async env s)
  | .errFinish reason => some (finalize reason env s)
  | .provErr userCancel => some (commitAndBranch .error userCancel env s)
  | .provCancel k => some (cancelLoop k 0 s)
  | .cancelTool i k => some (cancelLoop k (i + 1) s)
  | .sessDone => some (State.destroy .queryDestroy s)
  | .compactDone => some (autoRetryPending env s)
  | .handler _ _ _ => none
  | .submit k => some (submitAccepted k s)

/-- One step.  The provider calls back only for a submit it has accepted (or is being handed) and not
finished.  A session is destroyed with no callback in progress, so none returns into one that is
gone. -/
def step (s : State) (l : Label) : Option State :=
  match l.move with
  | .input msg => if s.alive then some (sessionInput false msg l.env s) else none
  | .cancel => if s.alive then some (sessionCancel s) else none
  | .resolve r d reason =>
    match s.resolvers[r]? with
    | none => none
    | some v => some (toolConfirmResolve r v d reason l.env s)
  | .complete id out inv =>
    some (asyncToolComplete id out { s with delivered := inv :: s.delivered })
  | .text serial chunk =>
    if s.inFlight serial then some { s with q := onProviderText s.q chunk } else none
  | .thinking serial chunk =>
    if s.inFlight serial then some { s with q := onProviderThinking s.q chunk } else none
  | .toolCall serial id name args =>
    if s.inFlight serial then some { s with q := onProviderToolCall s.q id name args } else none
  | .done serial reason err usage =>
    match s.flights.find? (fun f => f.serial = serial) with
    | none => none
    | some f =>
      some (onProviderDone reason err usage f.seq l.env ((s.land serial).emit (.provDone f.run f.turn)))
  | .handlerRet trc out =>
    match s.stack with
    | .handler k v inv :: rest => some (handlerReturned k v inv trc out l.env { s with stack := rest })
    | _ => none
  | .ret =>
    match s.stack with
    | f :: rest => if s.alive then frameReturned l.env f { s with stack := rest } else none
    | [] => none
  | .setContextWindow n =>
    if s.alive then some { s with sess := { s.sess with contextWindow := n } } else none
  | .destroy =>
    match s.stack with
    | [] => if s.alive then some (State.destroy .sessionDestroy s) else none
    | _ => none
  | .create n => if s.alive then none else some (createSession n s)

/-- What a step can do, case by case. -/
inductive Took (env : InputEnv) (s : State) : Move → State → Prop
  | input (msg : Message) : s.alive = true → Took env s (.input msg) (s.sessionInput false msg env)
  | cancel : s.alive = true → Took env s .cancel s.sessionCancel
  | resolve (r : ℕ) (d : Decision) (reason : Bytes) (v : Resolver) : s.resolvers[r]? = some v →
      Took env s (.resolve r d reason) (s.toolConfirmResolve r v d reason env)
  | complete (id : Bytes) (out : ToolOut) (inv : ℕ) :
      Took env s (.complete id out inv)
        (State.asyncToolComplete id out { s with delivered := inv :: s.delivered })
  | text (serial : ℕ) (chunk : Bytes) : s.inFlight serial = true →
      Took env s (.text serial chunk) { s with q := onProviderText s.q chunk }
  | thinking (serial : ℕ) (chunk : Bytes) : s.inFlight serial = true →
      Took env s (.thinking serial chunk) { s with q := onProviderThinking s.q chunk }
  | toolCall (serial : ℕ) (id name args : Option Bytes) : s.inFlight serial = true →
      Took env s (.toolCall serial id name args) { s with q := onProviderToolCall s.q id name args }
  | done (serial : ℕ) (reason : ProviderStop) (err : Errno) (usage : Option Usage) (f : Flight) :
      s.flights.find? (fun f => f.serial = serial) = some f → Took env s (.done serial reason err usage)
        (State.onProviderDone reason err usage f.seq env
          ((s.land serial).emit (.provDone f.run f.turn)))
  | handlerRet (trc : Errno) (out : ToolOut) (k : InvokeKind) (v : Invocation) (inv : ℕ)
      (rest : List Frame) : s.stack = .handler k v inv :: rest →
      Took env s (.handlerRet trc out)
        (State.handlerReturned k v inv trc out env { s with stack := rest })
  | retSubmit (k : SubmitKind) (rest : List Frame) : s.stack = .submit k :: rest →
      Took env s .ret (submitAccepted k { s with stack := rest })
  | retConfirm (i : ℕ) (rest : List Frame) : s.stack = .confirm i :: rest →
      Took env s .ret (State.dispatchLoop (i + 1) env { s with stack := rest })
  | retToolStart (k : InvokeKind) (v : Invocation) (rest : List Frame) :
      s.stack = .toolStart k v :: rest →
      Took env s .ret (State.callHandler k v { s with stack := rest })
  | retToolDone (k : InvokeKind) (rest : List Frame) : s.stack = .toolDone k :: rest →
      Took env s .ret (State.afterInvoke k env { s with stack := rest })
  | retCompleteDone (rest : List Frame) : s.stack = .completeDone :: rest →
      Took env s .ret (State.tailCheck .async env { s with stack := rest })
  | retErrFinish (reason : DoneReason) (rest : List Frame) : s.stack = .errFinish reason :: rest →
      Took env s .ret (State.finalize reason env { s with stack := rest })
  | retProvErr (userCancel : Bool) (rest : List Frame) : s.stack = .provErr userCancel :: rest →
      Took env s .ret (State.commitAndBranch .error userCancel env { s with stack := rest })
  | retProvCancel (k : CancelKind) (rest : List Frame) : s.stack = .provCancel k :: rest →
      s.alive = true →
      Took env s .ret (State.cancelLoop k 0 { s with stack := rest })
  | retCancelTool (i : ℕ) (k : CancelKind) (rest : List Frame) : s.stack = .cancelTool i k :: rest →
      s.alive = true →
      Took env s .ret (State.cancelLoop k (i + 1) { s with stack := rest })
  | retSessDone (rest : List Frame) : s.stack = .sessDone :: rest →
      Took env s .ret (State.destroy .queryDestroy { s with stack := rest })
  | retCompactDone (rest : List Frame) : s.stack = .compactDone :: rest → s.alive = true →
      Took env s .ret (State.autoRetryPending env { s with stack := rest })
  | setContextWindow (n : ℕ) : s.alive = true →
      Took env s (.setContextWindow n) { s with sess := { s.sess with contextWindow := n } }
  | destroy : s.stack = [] → s.alive = true → Took env s .destroy (State.destroy .sessionDestroy s)
  | create (n : ℕ) : s.alive = false → Took env s (.create n) (createSession n s)

theorem took_of_ret {env : InputEnv} {s t : State} {f : Frame} {rest : List Frame}
    (hs : s.stack = f :: rest) (ha : s.alive = true)
    (h : frameReturned env f { s with stack := rest } = some t) : Took env s .ret t := by
  cases f with
  | confirm i => injection h with h; subst h; exact .retConfirm i rest hs
  | toolStart k v => injection h with h; subst h; exact .retToolStart k v rest hs
  | handler k v inv => exact absurd h (by simp [frameReturned])
  | toolDone k => injection h with h; subst h; exact .retToolDone k rest hs
  | completeDone => injection h with h; subst h; exact .retCompleteDone rest hs
  | errFinish reason => injection h with h; subst h; exact .retErrFinish reason rest hs
  | provErr c => injection h with h; subst h; exact .retProvErr c rest hs
  | submit k => injection h with h; subst h; exact .retSubmit k rest hs
  | provCancel k => injection h with h; subst h; exact .retProvCancel k rest hs ha
  | cancelTool i k => injection h with h; subst h; exact .retCancelTool i k rest hs ha
  | sessDone => injection h with h; subst h; exact .retSessDone rest hs
  | compactDone => injection h with h; subst h; exact .retCompactDone rest hs ha

/-- **Inversion of a step.** -/
theorem took_of_step {s t : State} {l : Label} (h : step s l = some t) : Took l.env s l.move t := by
  obtain ⟨m, env⟩ := l
  unfold step at h
  cases m with
  | input msg =>
    simp only [ite_none_right_eq_some, some.injEq] at h
    rw [← h.2]; exact .input msg h.1
  | cancel =>
    simp only [ite_none_right_eq_some, some.injEq] at h
    rw [← h.2]; exact .cancel h.1
  | resolve r d reason =>
    dsimp only at h
    cases hv : s.resolvers[r]? with
    | none => rw [hv] at h; exact absurd h (by simp)
    | some v => rw [hv] at h; injection h with h; rw [← h]; exact .resolve r d reason v hv
  | complete id out inv => injection h with h; rw [← h]; exact .complete id out inv
  | text serial chunk =>
    simp only [ite_none_right_eq_some, some.injEq] at h
    rw [← h.2]; exact .text serial chunk h.1
  | thinking serial chunk =>
    simp only [ite_none_right_eq_some, some.injEq] at h
    rw [← h.2]; exact .thinking serial chunk h.1
  | toolCall serial id name args =>
    simp only [ite_none_right_eq_some, some.injEq] at h
    rw [← h.2]; exact .toolCall serial id name args h.1
  | done serial reason err usage =>
    dsimp only at h
    cases hf : s.flights.find? (fun f => f.serial = serial) with
    | none => rw [hf] at h; exact absurd h (by simp)
    | some f =>
      rw [hf] at h; injection h with h; rw [← h]
      exact .done serial reason err usage f hf
  | handlerRet trc out =>
    dsimp only at h
    split at h
    · next k v inv rest hst =>
      injection h with h; rw [← h]; exact .handlerRet trc out k v inv rest hst
    · exact absurd h (by simp)
  | ret =>
    dsimp only at h
    split at h
    · next f rest hst =>
      rw [ite_none_right_eq_some] at h
      exact took_of_ret hst h.1 h.2
    · exact absurd h (by simp)
  | setContextWindow n =>
    simp only [ite_none_right_eq_some, some.injEq] at h
    rw [← h.2]; exact .setContextWindow n h.1
  | destroy =>
    dsimp only at h
    split at h
    · next hst =>
      simp only [ite_none_right_eq_some, some.injEq] at h
      rw [← h.2]; exact .destroy hst h.1
    · exact absurd h (by simp)
  | create n =>
    simp only [ite_none_left_eq_some, some.injEq] at h
    rw [← h.2]; exact .create n (by simpa using h.1)

/-- A session created by `xAgentCreateSession` over a store. -/
def init (conf : Conf) (contextWindow : ℕ) (store : List Slot) (nextUid : ℕ) : State :=
  createSession contextWindow { conf := conf, store := store, nextUid := nextUid, alive := false }

def hello : Message := ⟨.user, [.text (bytes "hi")]⟩

end Libx.Agent
