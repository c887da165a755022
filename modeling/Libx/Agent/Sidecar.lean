import Libx.Agent.Session
import Libx.Core.Run

/-!
# Libx.Agent.Sidecar — a second Query beside the main one

The idle timer of session.c and what it starts, over the Queries of a session as structs of their own.
-/

namespace Libx.Agent

open Libx.Core (Run)
open Option

/-- The table of callbacks that a Query was made with. -/
inductive QueryCbs
  | forward
  | compact
  | sidecar
  deriving DecidableEq

/-- `struct xAgentQuery_` with what it was made with. -/
structure QueryObj extends Query where
  cbs : QueryCbs := .forward
  tools : List Tool := []
  maxTokens : ℤ := 0

/-- `xAgentSidecarEvent`. -/
inductive SidecarEvent
  | started
  | done
  deriving DecidableEq

/-- The agent and the session by what they were configured with; `sidecarIdleMs` is `sidecar_idle_ms`. -/
structure SidecarConf where
  conf : Conf := {}
  enableSidecarQuery : Bool := true
  sidecarIdleMs : ℕ := 5000

/-- The session with its Queries: `query` and `sidecar` are the pointers of that name, `heap` the structs,
`idleTimer` says that the timer is in the loop, and `output` is the accumulator.  `texts` and `events` are what
`on_text` and `on_sidecar` were called with for a sidecar. -/
structure SidecarWorld where
  sess : Session := {}
  query : Option ℕ := none
  sidecar : Option ℕ := none
  idleTimer : Bool := false
  toolUseId : Option Bytes := none
  output : Option (List Bytes) := none
  heap : ℕ → Option QueryObj := fun _ => none
  texts : List Bytes := []
  events : List SidecarEvent := []

/-- What the allocations and the provider return: the struct that `query_alloc` gives is one that is not in use.
`stdinTool` is what the loop over the agent's tools finds. -/
structure SidecarEnv where
  textOk : Bool := true
  outputOk : Bool := true
  viewOk : Bool := true
  blocksOk : Bool := true
  stdinTool : Option Tool := none
  alloc : Option ℕ := some 0
  arraysOk : Bool := true
  copyOk : Bool := true
  submitRc : Errno := .ok

/-- `xAgentQueryConf` of a Query of the session. -/
structure QueryConf where
  cbs : QueryCbs
  tools : List Tool
  maxTokens : ℤ
  maxTurns : ℤ

namespace SidecarWorld

def put (id : ℕ) (q : Option QueryObj) (w : SidecarWorld) : SidecarWorld :=
  { w with heap := Function.update w.heap id q }

/-! ### Queries -/

/-- `xAgentQueryCreate` with the session. -/
def queryCreate (qc : QueryConf) (env : SidecarEnv) (w : SidecarWorld) : SidecarWorld × Option ℕ :=
  if w.query.isSome then (w, none)
  else
    match env.alloc with
    | none => (w, none)
    | some id =>
      if !env.arraysOk then (w, none)
      else
        let q : QueryObj :=
          { toQuery := Agent.queryCreate (qc.cbs = .forward) qc.maxTurns {}
            cbs := qc.cbs, tools := qc.tools, maxTokens := qc.maxTokens }
        ({ w.put id (some q) with query := some id }, some id)

/-- `xAgentQueryRun` with `submit_round`. -/
def queryRun (id : ℕ) (msgs : List Message) (env : SidecarEnv) (w : SidecarWorld) : SidecarWorld × Errno :=
  match w.heap id with
  | none => (w, .invalidArg)
  | some q =>
    if msgs = [] then (w, .invalidArg)
    else if q.running ∨ q.turn > 0 then (w, .busy)
    else if !env.copyOk then (w.put id (some { q with inputs := [] }), .noMemory)
    else
      let q := { q with inputs := q.inputs ++ turnBufAppend msgs }
      match viewBuild q.inputs q.produced with
      | .error rc => (w.put id (some { q with running := false, turn := 0 }), rc)
      | .ok _ =>
        let q := { q with assist := [], reasoning := [], pending := [] }
        if env.submitRc = .ok then (w.put id (some { q with running := true, turn := 1 }), .ok)
        else (w.put id (some { q with running := false, turn := 0 }), env.submitRc)

/-- `xAgentQueryDestroy`. -/
def queryDestroy (id : ℕ) (w : SidecarWorld) : SidecarWorld :=
  let w := if w.query = some id then { w with query := none } else w
  w.put id none

/-! ### The sidecar -/

/-- `session_sidecar_cleanup`. -/
def sidecarCleanup (w : SidecarWorld) : SidecarWorld :=
  let w := { w with idleTimer := false }
  let w := match w.sidecar with
    | none => w
    | some id => { w.queryDestroy id with sidecar := none }
  { w with toolUseId := none, output := none }

def producedTexts (es : List Entry) : List Bytes :=
  es.filterMap fun e => match e with
    | .text _ t => if t = [] then none else some t
    | _ => none

/-- `session_sidecar_on_done` for the Query `id`; `ai_query_take_produced` leaves it what it has. -/
def sidecarOnDone (id : ℕ) (w : SidecarWorld) : SidecarWorld :=
  let w := match w.query, w.heap id with
    | some _, some q => { w with texts := w.texts ++ producedTexts q.produced }
    | _, _ => w
  sidecarCleanup { w with events := w.events ++ [.done] }

/-- `kIdlePrefix` and `kIdleMid` around the id, and the output. -/
def idleText (tid output : Bytes) : Bytes :=
  bytes "[idle tool] The following async tool call has produced no output for a while. tool_use_id=\"" ++ tid ++
    bytes "\"\n\nLast accumulated output:\n" ++ output

/-- `XAGENT_SIDECAR_SYSTEM_PROMPT`. -/
def sidecarSystemPrompt : Bytes :=
  bytes "You are a diagnostic assistant. A tool call is blocking the main " ++
  bytes "conversation because it has not produced output for a while. " ++
  bytes "You are given the conversation history above for context so you " ++
  bytes "can understand what the user asked and what the assistant was " ++
  bytes "doing. Analyse the tool output shown below and decide whether to " ++
  bytes "send input to the running command. If the command is waiting for " ++
  bytes "user input (e.g. a prompt, confirmation, or REPL), use the " ++
  bytes "shell_stdin tool to send the appropriate input. If the command " ++
  bytes "appears to be genuinely running (e.g. compiling, downloading), " ++
  bytes "respond with empty text — no action is needed."

/-- The messages of a sidecar: its own system prompt, the history without the session's, and what the idle tool
has given. -/
def sidecarMsgs (hist : List Message) (text : Bytes) : List Message :=
  let rest := match hist with
    | m :: ms => if m.role = .system then ms else m :: ms
    | [] => []
  ⟨.system, [.text sidecarSystemPrompt]⟩ :: rest ++ [⟨.user, [.text text]⟩]

/-- `session_sidecar_idle_timer_cb`. -/
def idleTimerCb (sc : SidecarConf) (env : SidecarEnv) (w : SidecarWorld) : SidecarWorld :=
  let w := { w with idleTimer := false }
  match w.query with
  | none => w
  | some main =>
    if w.sess.compacting || w.sidecar.isSome then w
    else if ((w.heap main).map fun q => q.async.length).getD 0 = 0 then w
    else if !env.textOk then w
    else
      let output := if env.outputOk then (w.output.getD []).flatten else []
      let text := idleText (w.toolUseId.getD (bytes "(unknown)")) output
      match sessInputViewBuild sc.conf none w.sess.history env.viewOk with
      | .error _ => w
      | .ok hist =>
        if !env.blocksOk then w
        else
          let msgs := sidecarMsgs hist text
          match w.queryCreate ⟨.sidecar, env.stdinTool.toList, 256, 1⟩ env with
          | (w, none) => w
          | (w, some id) =>
            match w.queryRun id msgs env with
            | (w, .ok) => { w with sidecar := some id, events := w.events ++ [.started] }
            | (w, _) => w.queryDestroy id

/-- `sess_fwd_on_tool_output`, behind the host's callback. -/
def onToolOutput (sc : SidecarConf) (tid : Option Bytes) (data : Bytes) (armed : Bool) (w : SidecarWorld) :
    SidecarWorld :=
  if 0 < sc.sidecarIdleMs ∧ sc.enableSidecarQuery ∧ w.query.isSome ∧ w.sidecar = none then
    { w with
      toolUseId := w.toolUseId.or tid
      output := some (w.output.getD [] ++ [data])
      idleTimer := armed }
  else w

/-! ### The session around it -/

/-- What happens to the session: an input or a compact starts a Query; the Query behind `s->query` goes on in any
way, and ends; a tool gives output; the idle timer; and a sidecar goes on and ends. -/
inductive Input
  | input (msg : Message) (env : SidecarEnv)
  | compact (msgs : List Message) (env : SidecarEnv)
  | main (q : QueryObj)
  | mainDone (sess : Session)
  | compactDone (sess : Session)
  | output (tid : Option Bytes) (data : Bytes) (armed : Bool)
  | timer (env : SidecarEnv)
  | side (q : QueryObj)
  | sideDone

/-- The start of the Query of an input or a compact: one that does not run is destroyed. -/
def launch (qc : QueryConf) (msgs : List Message) (env : SidecarEnv) (w : SidecarWorld) : SidecarWorld :=
  match w.queryCreate qc env with
  | (w, none) => w
  | (w, some id) =>
    match w.queryRun id msgs env with
    | (w, .ok) => w
    | (w, _) => w.queryDestroy id

/-- A sidecar's own steps. -/
inductive SideInput
  | goesOn (q : QueryObj)
  | ends

def sideStep (w : SidecarWorld) : SideInput → Option SidecarWorld
  | .goesOn q => w.sidecar.map fun id => w.put id (some q)
  | .ends => w.sidecar.map fun id => w.sidecarOnDone id

/-- `query_alloc` gives a struct that is not in use, or none. -/
def Allocates (env : SidecarEnv) (w : SidecarWorld) : Prop := ∀ id ∈ env.alloc, (w.heap id).isNone

instance (env : SidecarEnv) (w : SidecarWorld) : Decidable (w.Allocates env) :=
  inferInstanceAs (Decidable (∀ id ∈ env.alloc, _))

def step (sc : SidecarConf) (w : SidecarWorld) : Input → Option SidecarWorld
  | .input msg env =>
    if w.query.isSome ∨ w.sess.compacting ∨ ¬ w.Allocates env then none
    else some (w.launch ⟨.forward, sc.conf.tools, sc.conf.maxTokens, sc.conf.maxTurns⟩ [msg] env)
  | .compact msgs env =>
    if w.query.isSome ∨ w.sess.compacting ∨ ¬ w.Allocates env then none
    else some (launch ⟨.compact, [], 0, 1⟩ msgs env { w with sess := { w.sess with compacting := true } })
  | .main q => w.query.map fun id => w.put id (some q)
  | .mainDone sess => w.query.map fun id => { w.sidecarCleanup.queryDestroy id with sess }
  | .compactDone sess => w.query.map fun id => { w.queryDestroy id with sess }
  | .output tid data armed => some (w.onToolOutput sc tid data armed)
  | .timer env => if w.idleTimer ∧ w.Allocates env then some (w.idleTimerCb sc env) else none
  | .side q => w.sideStep (.goesOn q)
  | .sideDone => w.sideStep .ends

/-- The idle timer fires in a state for a sidecar, and nothing fails. -/
structure Ready (sc : SidecarConf) (env : SidecarEnv) (w : SidecarWorld) : Prop where
  fires : w.idleTimer = true
  main : ∃ id q, w.query = some id ∧ w.heap id = some q ∧ q.running = true ∧ q.async ≠ []
  compacting : w.sess.compacting = false
  sidecar : w.sidecar = none
  alloc : ∃ id, env.alloc = some id ∧ w.heap id = none
  memory : env.textOk = true ∧ env.outputOk = true ∧ env.viewOk = true ∧ env.blocksOk = true ∧
    env.arraysOk = true ∧ env.copyOk = true
  submit : env.submitRc = .ok

/-- The session's Query is the same, with the same lists. -/
def Untouched (w w' : SidecarWorld) : Prop :=
  w'.query = w.query ∧ ∀ id q, w.query = some id → w.heap id = some q →
    ∃ q', w'.heap id = some q' ∧ q'.inputs = q.inputs ∧ q'.produced = q.produced ∧ q'.pending = q.pending

/-- **The sidecar runs beside the main Query**: the timer leaves a running Query of its own behind, and from there
through its end and the cleanup the main Query is left alone. -/
structure Beside (sc : SidecarConf) (env : SidecarEnv) (w : SidecarWorld) : Prop where
  started : ∃ id q, (w.idleTimerCb sc env).sidecar = some id ∧ (w.idleTimerCb sc env).heap id = some q ∧
    q.running = true ∧ (w.idleTimerCb sc env).query ≠ some id
  kept : ∀ w', Run sideStep (fun _ _ => True) (w.idleTimerCb sc env) w' → w.Untouched w'

/-! ### The guard of `xAgentQueryCreate` -/

variable {sc : SidecarConf} {e : SidecarEnv} {w w' : SidecarWorld}

theorem queryCreate_busy (qc : QueryConf) (e : SidecarEnv) (h : w.query.isSome = true) :
    w.queryCreate qc e = (w, none) := if_pos h

/-- **The idle timer starts nothing**: without a Query there is nothing to look at, and with one no other is made. -/
theorem idleTimerCb_eq (sc : SidecarConf) (e : SidecarEnv) (w : SidecarWorld) :
    w.idleTimerCb sc e = { w with idleTimer := false } := by
  unfold idleTimerCb
  cases w.query with
  | none => rfl
  | some main =>
    dsimp only
    by_cases hother : (w.sess.compacting || w.sidecar.isSome) = true
    · rw [if_pos hother]
    rw [if_neg hother]
    by_cases hasync : ((w.heap main).map fun q => q.async.length).getD 0 = 0
    · rw [if_pos hasync]
    rw [if_neg hasync]
    by_cases htext : (!e.textOk) = true
    · rw [if_pos htext]
    rw [if_neg htext]
    cases sessInputViewBuild sc.conf none w.sess.history e.viewOk with
    | error rc => rfl
    | ok hist =>
      dsimp only
      by_cases hblocks : (!e.blocksOk) = true
      · rw [if_pos hblocks]
      -- the Query whose tool is idle is the one that the guard finds
      rw [if_neg hblocks, queryCreate_busy _ _ rfl]

/-- **No sidecar is ever started**, in whatever state the timer fires. -/
theorem never_beside (h : w.Ready sc e) : ¬ w.Beside sc e := by
  intro hb
  obtain ⟨id, q, hside, -⟩ := hb.started
  rw [idleTimerCb_eq] at hside
  exact absurd (h.sidecar.symm.trans hside) nofun

/-! ### Every session -/

/-- What every run keeps: there is no sidecar, and the host hears of none. -/
structure NoSidecar (w : SidecarWorld) : Prop where
  sidecar : w.sidecar = none
  events : w.events = []
  texts : w.texts = []

theorem NoSidecar.queryCreate {qc : QueryConf} (h : w.NoSidecar) : (w.queryCreate qc e).1.NoSidecar := by
  unfold SidecarWorld.queryCreate
  by_cases hq : w.query.isSome = true
  · rw [if_pos hq]
    exact h
  · rw [if_neg hq]
    cases e.alloc with
    | none => exact h
    | some id =>
      split_ifs
      · exact h
      · exact ⟨h.1, h.2, h.3⟩

theorem queryRun_frame (id : ℕ) (msgs : List Message) (e : SidecarEnv) (w : SidecarWorld) :
    ∃ heap, (w.queryRun id msgs e).1 = { w with heap } := by
  unfold queryRun
  cases w.heap id with
  | none => exact ⟨_, rfl⟩
  | some q =>
    dsimp only
    by_cases hmsgs : msgs = []
    · rw [if_pos hmsgs]
      exact ⟨_, rfl⟩
    rw [if_neg hmsgs]
    by_cases hbusy : q.running = true ∨ q.turn > 0
    · rw [if_pos hbusy]
      exact ⟨_, rfl⟩
    rw [if_neg hbusy]
    by_cases hcopy : (!e.copyOk) = true
    · rw [if_pos hcopy]
      exact ⟨_, rfl⟩
    rw [if_neg hcopy]
    cases viewBuild (q.inputs ++ turnBufAppend msgs) q.produced with
    | error rc => exact ⟨_, rfl⟩
    | ok view =>
      by_cases hsubmit : e.submitRc = .ok
      · rw [if_pos hsubmit]
        exact ⟨_, rfl⟩
      · rw [if_neg hsubmit]
        exact ⟨_, rfl⟩

variable {id : ℕ}

theorem NoSidecar.queryRun {msgs : List Message} (h : w.NoSidecar) :
    (w.queryRun id msgs e).1.NoSidecar := by
  obtain ⟨heap, heq⟩ := queryRun_frame id msgs e w
  rw [heq]
  exact ⟨h.1, h.2, h.3⟩

theorem NoSidecar.queryDestroy (h : w.NoSidecar) : (w.queryDestroy id).NoSidecar := by
  unfold SidecarWorld.queryDestroy
  split_ifs
  · exact ⟨h.1, h.2, h.3⟩
  · exact ⟨h.1, h.2, h.3⟩

theorem NoSidecar.launch {qc : QueryConf} {msgs : List Message} (h : w.NoSidecar) :
    (w.launch qc msgs e).NoSidecar := by
  unfold SidecarWorld.launch
  have hcreate : (w.queryCreate qc e).1.NoSidecar := h.queryCreate
  split
  · next u heq =>
    rw [heq] at hcreate
    exact hcreate
  · next u id heq =>
    rw [heq] at hcreate
    have hrun : (u.queryRun id msgs e).1.NoSidecar := hcreate.queryRun
    split
    · next v hv =>
      rw [hv] at hrun
      exact hrun
    · next v rc _ hv =>
      rw [hv] at hrun
      exact hrun.queryDestroy

theorem NoSidecar.sidecarCleanup (h : w.NoSidecar) : w.sidecarCleanup.NoSidecar := by
  unfold SidecarWorld.sidecarCleanup
  rw [h.sidecar]
  exact ⟨rfl, h.2, h.3⟩

theorem NoSidecar.step {i : Input} (h : w.NoSidecar) (hs : w.step sc i = some w') : w'.NoSidecar := by
  unfold SidecarWorld.step at hs
  cases i with
  | input msg env =>
    dsimp only at hs
    split_ifs at hs
    exact some.inj hs ▸ h.launch
  | compact msgs env =>
    dsimp only at hs
    split_ifs at hs
    exact some.inj hs ▸ NoSidecar.launch ⟨h.1, h.2, h.3⟩
  | main q =>
    obtain ⟨id, -, rfl⟩ := map_eq_some_iff.mp hs
    exact ⟨h.1, h.2, h.3⟩
  | mainDone sess =>
    obtain ⟨id, -, rfl⟩ := map_eq_some_iff.mp hs
    have hd : (w.sidecarCleanup.queryDestroy id).NoSidecar := h.sidecarCleanup.queryDestroy
    exact ⟨hd.1, hd.2, hd.3⟩
  | compactDone sess =>
    obtain ⟨id, -, rfl⟩ := map_eq_some_iff.mp hs
    have hd : (w.queryDestroy id).NoSidecar := h.queryDestroy
    exact ⟨hd.1, hd.2, hd.3⟩
  | output tid data armed =>
    obtain rfl := some.inj hs
    unfold onToolOutput
    split_ifs
    · exact ⟨h.1, h.2, h.3⟩
    · exact h
  | timer env =>
    dsimp only at hs
    split_ifs at hs
    rw [← some.inj hs, idleTimerCb_eq]
    exact ⟨h.1, h.2, h.3⟩
  | side q | sideDone =>
    obtain ⟨id, hside, -⟩ := map_eq_some_iff.mp hs
    exact absurd (h.sidecar.symm.trans hside) nofun

/-- **No session ever has a sidecar**, and its host never hears of one. -/
theorem noSidecar_of_run (h : Run (step sc) (fun _ _ => True) {} w) : w.NoSidecar :=
  h.preserves (fun _ _ _ hk _ hs => hk.step hs) ⟨rfl, rfl, rfl⟩

/-! ### A session in which the timer fires -/

/-- A user's message starts a Query, it calls a tool that goes on in the background, and the tool gives output. -/
theorem exists_ready : ∃ w, Run (step {}) (fun _ _ => True) {} w ∧ w.Ready {} { alloc := some 1 } := by
  let hello : Message := ⟨.user, [.text (bytes "run it")]⟩
  let shell : AsyncTool := ⟨⟨bytes "shell", false⟩, ⟨bytes "c1", bytes "shell", bytes "0"⟩, .running, none, 0⟩
  let w1 : SidecarWorld := launch ⟨.forward, [], 0, 0⟩ [hello] {} {}
  let q : QueryObj := { running := true, turn := 1, live := true, user := true, async := [shell] }
  let w2 := w1.put 0 (some q)
  let w3 := w2.onToolOutput {} (some (bytes "c1")) (bytes "password:") true
  have h1 : step {} {} (.input hello {}) = some w1 := rfl
  have h2 : step {} w1 (.main q) = some w2 := rfl
  have h3 : step {} w2 (.output (some (bytes "c1")) (bytes "password:") true) = some w3 := rfl
  refine ⟨w3, ((Run.single trivial h1).tail trivial h2).tail trivial h3, ?_⟩
  exact ⟨rfl, ⟨0, q, rfl, rfl, rfl, List.cons_ne_nil _ _⟩, rfl, rfl, ⟨1, rfl, rfl⟩, ⟨rfl, rfl, rfl, rfl, rfl, rfl⟩, rfl⟩

theorem noSidecar_of_run_shell : ∃ w, Run (step {}) (fun _ _ => True) {} w ∧ w.idleTimer = true ∧ w.NoSidecar := by
  obtain ⟨w, hrun, hready⟩ := exists_ready
  exact ⟨w, hrun, hready.fires, noSidecar_of_run hrun⟩

theorem never_beside_shell : ∃ w, Run (step {}) (fun _ _ => True) {} w ∧ ¬ w.Beside {} { alloc := some 1 } := by
  obtain ⟨w, hrun, hready⟩ := exists_ready
  exact ⟨w, hrun, never_beside hready⟩

/-- **A tool goes idle and no sidecar is started**: the session's Query is in the way. -/
theorem not_beside_shell : ∃ w, Run (step {}) (fun _ _ => True) {} w ∧ w.Ready {} { alloc := some 1 } ∧
    ¬ w.Beside {} { alloc := some 1 } := by
  obtain ⟨w, hrun, hready⟩ := exists_ready
  refine ⟨w, hrun, hready, fun h => ?_⟩
  obtain ⟨id, q, hside, -⟩ := h.started
  rw [idleTimerCb_eq] at hside
  exact absurd (hready.sidecar.symm.trans hside) nofun

end SidecarWorld

end Libx.Agent
