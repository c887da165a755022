import Libx.Core.Run

/-!
# Libx.Loop.Offload — work on other threads, and callbacks on the loop's

event_offload.c, event_post.c, of event_private.c the dispatch of the done queue, and of task.c the state of a task.  Every
step is one of the atomic steps of a submitter, a worker, a canceller or the loop thread; the queues' own are atomic too.
-/

namespace Libx.Loop

/-- `xEventWork_`; `call` stands for its functions and their argument. -/
structure WorkItem where
  call : ℕ := 0
  task : Option ℕ := none
  result : Option ℕ := none
  deriving DecidableEq

inductive CallKind
  | submit (hasDone : Bool)
  | post
  deriving DecidableEq

/-- How far the caller has come: it has an item; the task is submitted; `task` is set; it has returned Ok, or has not. -/
inductive CallerStage
  | allocated
  | submitted
  | taskSet
  | accepted
  | failed
  deriving DecidableEq

/-- How far the worker has come with the task: it is queued; it is running; `work_fn` has returned; the item is pushed;
the note is signalled. -/
inductive WorkerStage
  | queued
  | running
  | worked
  | pushed
  | finished
  deriving DecidableEq

/-- A call of Submit or Post with its item, its task, and what has been called for it. -/
structure Call where
  kind : CallKind
  item : ℕ
  stage : CallerStage := .allocated
  worker : WorkerStage := .queued
  cancelled : Bool := false
  workRuns : List ℕ := []
  doneRuns : List (Option ℕ) := []
  postRuns : ℕ := 0
  cancelOk : Bool := false
  uncounted : Bool := false
  recycles : ℕ := 0
  deriving DecidableEq

namespace Call

def isPost (c : Call) : Bool := c.kind == .post

def hasTask (c : Call) : Bool := !c.isPost && (c.stage == .submitted || c.stage == .taskSet || c.stage == .accepted)

/-- An offload that is accepted and that the loop has not counted down. -/
def outstanding (c : Call) : Bool := !c.isPost && c.stage == .accepted && !c.uncounted

/-- An offload that is accepted and whose worker has not finished. -/
def unfinished (c : Call) : Bool := !c.isPost && c.stage == .accepted && c.worker != .finished

end Call

/-- How far the loop has come with an item: it is popped; its task is waited for; the callback is called; it is counted. -/
inductive FrameStage
  | popped
  | waiting (task : ℕ)
  | called (offload : Bool)
  | counted
  deriving DecidableEq

structure Frame where
  item : ℕ
  stage : FrameStage := .popped
  deriving DecidableEq

/-- How far a Cancel has come: it has read `task`; it has cancelled it; it has returned. -/
inductive CancelStage
  | loaded
  | won
  | returned
  deriving DecidableEq

structure Canceller where
  call : ℕ
  task : Option ℕ
  stage : CancelStage := .loaded
  deriving DecidableEq

/-- The part of `xEventLoop_` that is about work; the calls, and the steps that are under way.  `misused` is that an item
was used for a call after it was recycled. -/
structure OffloadLoop where
  works : ℕ → WorkItem := fun _ => {}
  made : ℕ → Bool := fun _ => false
  pool : List ℕ := []
  queue : List ℕ := []
  inflight : ℤ := 0
  calls : List Call := []
  frames : List Frame := []
  cancels : List Canceller := []
  misused : Bool := false

inductive OffloadStep
  | alloc (kind : CallKind) (mem : Option ℕ)
  | submitTask (call : ℕ) (ok : Bool)
  | setTask (call : ℕ)
  | accept (call : ℕ)
  | postPush (call : ℕ)
  | start (call : ℕ)
  | work (call result : ℕ)
  | push (call : ℕ)
  | finish (call : ℕ)
  | cancelLoad (call : ℕ)
  | cancelTask (canceller : ℕ)
  | cancelPush (canceller : ℕ)
  | pop
  | check
  | wait
  | uncount
  | recycle

namespace OffloadLoop

/-- `event_work_alloc`; what calloc answers is no memory that is in use. -/
def workAlloc (s : OffloadLoop) (mem : Option ℕ) : Option (ℕ × OffloadLoop) :=
  match s.pool with
  | a :: rest => some (a, { s with pool := rest })
  | [] =>
    match mem.filter fun a => !s.made a with
    | some a => some (a, { s with made := Function.update s.made a true })
    | none => none

/-- `event_work_free`. -/
def workFree (s : OffloadLoop) (a : ℕ) : OffloadLoop := { s with pool := a :: s.pool }

def setCall (s : OffloadLoop) (k : ℕ) (c : Call) : OffloadLoop := { s with calls := s.calls.set k c }

def setWork (s : OffloadLoop) (a : ℕ) (w : WorkItem) : OffloadLoop := { s with works := Function.update s.works a w }

def use (s : OffloadLoop) (c : Call) : OffloadLoop := { s with misused := s.misused || c.recycles != 0 }

def useItem (s : OffloadLoop) (a : ℕ) : OffloadLoop :=
  match s.calls[(s.works a).call]? with
  | none => s
  | some c => s.use c

/-- The call whose functions are in the item is told. -/
def tell (s : OffloadLoop) (a : ℕ) (f : Call → Call) : OffloadLoop :=
  { s with calls := s.calls.modify (s.works a).call f }

def topFrame (s : OffloadLoop) (stage : FrameStage) : OffloadLoop :=
  match s.frames with
  | [] => s
  | f :: fs => { s with frames := { f with stage } :: fs }

/-- `xEventLoopSubmit` and `xEventLoopPost`, the item. -/
def alloc (s : OffloadLoop) (kind : CallKind) (mem : Option ℕ) : Option OffloadLoop :=
  match s.workAlloc mem with
  | none => none
  | some (a, s) =>
    some { s with
      works := Function.update s.works a { call := s.calls.length }
      calls := s.calls ++ [{ kind, item := a }] }

/-- `xTaskSubmit`; the task is that of the call. -/
def submitTask (s : OffloadLoop) (k : ℕ) (c : Call) (ok : Bool) : OffloadLoop :=
  if ok then s.setCall k { c with stage := .submitted }
  else ((s.use c).setCall k { c with stage := .failed, recycles := c.recycles + 1 }).workFree c.item

/-- `w->task = t`. -/
def setTask (s : OffloadLoop) (k : ℕ) (c : Call) : OffloadLoop :=
  ((s.use c).setWork c.item { s.works c.item with task := some k }).setCall k { c with stage := .taskSet }

/-- `inflight` is counted up, and Submit returns. -/
def accept (s : OffloadLoop) (k : ℕ) (c : Call) : OffloadLoop :=
  { s.setCall k { c with stage := .accepted } with inflight := s.inflight + 1 }

/-- `xEventLoopPost`, the push. -/
def postPush (s : OffloadLoop) (k : ℕ) (c : Call) : OffloadLoop :=
  { (s.use c).setCall k { c with stage := .accepted } with queue := s.queue ++ [c.item] }

/-- A worker takes the task: a task that is cancelled is not executed. -/
def start (s : OffloadLoop) (k : ℕ) (c : Call) : OffloadLoop :=
  s.setCall k { c with worker := if c.cancelled then .finished else .running }

/-- `w->result = w->work_fn(w->arg)`. -/
def work (s : OffloadLoop) (k : ℕ) (c : Call) (result : ℕ) : OffloadLoop :=
  (((s.use c).setWork c.item { s.works c.item with result := some result }).setCall k { c with worker := .worked }).tell
    c.item fun c => { c with workRuns := c.workRuns ++ [result] }

/-- `offload_worker`, the push. -/
def push (s : OffloadLoop) (k : ℕ) (c : Call) : OffloadLoop :=
  { (s.use c).setCall k { c with worker := .pushed } with queue := s.queue ++ [c.item] }

/-- `xEventWake(w->loop)`, and the note of the task. -/
def finish (s : OffloadLoop) (k : ℕ) (c : Call) : OffloadLoop := (s.use c).setCall k { c with worker := .finished }

/-- `xEventLoopWorkCancel`, what it reads of the item. -/
def cancelLoad (s : OffloadLoop) (k : ℕ) (c : Call) : OffloadLoop :=
  { s.use c with cancels := s.cancels ++ [{ call := k, task := (s.works c.item).task }] }

/-- `xTaskCancel`. -/
def cancelTask (s : OffloadLoop) (i : ℕ) (x : Canceller) : OffloadLoop :=
  match x.task.bind fun t => (s.calls[t]?).map fun c => (t, c) with
  | none => { s with cancels := s.cancels.set i { x with stage := .returned } }
  | some (t, c) =>
    if c.worker = .queued ∧ c.cancelled = false then
      { s.setCall t { c with cancelled := true } with cancels := s.cancels.set i { x with stage := .won } }
    else { s with cancels := s.cancels.set i { x with stage := .returned } }

/-- `xEventLoopWorkCancel`, the push. -/
def cancelPush (s : OffloadLoop) (i : ℕ) (x : Canceller) (c : Call) : OffloadLoop :=
  { ((s.use c).setWork c.item { s.works c.item with result := none }).setCall x.call { c with cancelOk := true } with
    queue := s.queue ++ [c.item]
    cancels := s.cancels.set i { x with stage := .returned } }

/-- `loop_dispatch_done`: an item is popped, in a callback too. -/
def pop (s : OffloadLoop) : Option OffloadLoop :=
  match s.queue with
  | [] => none
  | a :: rest =>
    if s.frames.head?.all fun f => f.stage == .called true || f.stage == .called false then
      some { s with queue := rest, frames := { item := a } :: s.frames }
    else none

/-- `loop_dispatch_done`: what an item is told by, and the callback of a post. -/
def check (s : OffloadLoop) (a : ℕ) : OffloadLoop :=
  match (s.works a).task with
  | some t => (s.useItem a).topFrame (.waiting t)
  | none => ((s.useItem a).topFrame (.called false)).tell a fun c => { c with postRuns := c.postRuns + 1 }

/-- The callback of an offload; there may be none. -/
def callDone (c : Call) (result : Option ℕ) : Call :=
  if c.kind = .submit false then c else { c with doneRuns := c.doneRuns ++ [result] }

/-- `xTaskWait`, and the callback of a task that is not cancelled. -/
def wait (s : OffloadLoop) (a : ℕ) (cancelled : Bool) : OffloadLoop :=
  if cancelled then (s.useItem a).topFrame (.called true)
  else ((s.useItem a).topFrame (.called true)).tell a (callDone · (s.works a).result)

/-- `inflight` is counted down. -/
def uncount (s : OffloadLoop) (a : ℕ) : OffloadLoop :=
  { (s.topFrame .counted).tell a fun c => { c with uncounted := true } with inflight := s.inflight - 1 }

def recycle (s : OffloadLoop) (a : ℕ) : OffloadLoop :=
  ({ s.useItem a with frames := s.frames.tail }.tell a fun c => { c with recycles := c.recycles + 1 }).workFree a

def onCall (s : OffloadLoop) (k : ℕ) (p : Call → Bool) (f : Call → OffloadLoop) : Option OffloadLoop :=
  match s.calls[k]? with
  | none => none
  | some c => if p c then some (f c) else none

def onFrame (s : OffloadLoop) (p : Frame → Bool) (f : Frame → OffloadLoop) : Option OffloadLoop :=
  match s.frames with
  | [] => none
  | x :: _ => if p x then some (f x) else none

def onCancel (s : OffloadLoop) (i : ℕ) (p : Canceller → Bool) (f : Canceller → OffloadLoop) : Option OffloadLoop :=
  match s.cancels[i]? with
  | none => none
  | some x => if p x then some (f x) else none

def step (s : OffloadLoop) : OffloadStep → Option OffloadLoop
  | .alloc kind mem => s.alloc kind mem
  | .submitTask k ok => s.onCall k (fun c => !c.isPost && c.stage == .allocated) fun c => s.submitTask k c ok
  | .setTask k => s.onCall k (fun c => !c.isPost && c.stage == .submitted) (s.setTask k)
  | .accept k => s.onCall k (fun c => !c.isPost && c.stage == .taskSet) (s.accept k)
  | .postPush k => s.onCall k (fun c => c.isPost && c.stage == .allocated) (s.postPush k)
  | .start k => s.onCall k (fun c => c.hasTask && c.worker == .queued) (s.start k)
  | .work k result => s.onCall k (fun c => c.hasTask && c.worker == .running) fun c => s.work k c result
  | .push k => s.onCall k (fun c => c.hasTask && c.worker == .worked) (s.push k)
  | .finish k => s.onCall k (fun c => c.hasTask && c.worker == .pushed) (s.finish k)
  | .cancelLoad k => s.onCall k (fun c => !c.isPost && c.stage == .accepted) (s.cancelLoad k)
  | .cancelTask i => s.onCancel i (fun x => x.stage == .loaded) (s.cancelTask i)
  | .cancelPush i => s.onCancel i (fun x => x.stage == .won) fun x =>
      match s.calls[x.call]? with
      | none => s
      | some c => s.cancelPush i x c
  | .pop => s.pop
  | .check => s.onFrame (fun f => f.stage == .popped) fun f => s.check f.item
  | .wait =>
    match s.frames with
    | { item := a, stage := .waiting t } :: _ =>
      s.onCall t (fun c => c.worker == .finished) fun c => s.wait a c.cancelled
    | _ => none
  | .uncount => s.onFrame (fun f => f.stage == .called true) fun f => s.uncount f.item
  | .recycle => s.onFrame (fun f => f.stage == .called false || f.stage == .counted) fun f => s.recycle f.item

end OffloadLoop

/-- What may have been called for a call, and what has when its item is recycled. -/
structure Call.Right (c : Call) : Prop where
  recycles : c.recycles ≤ 1
  post : c.isPost = true → c.workRuns = [] ∧ c.doneRuns = [] ∧ c.postRuns ≤ 1
  offload : c.isPost = false → c.postRuns = 0 ∧ c.workRuns.length ≤ 1 ∧ c.doneRuns.length ≤ 1 ∧
    ∀ r ∈ c.doneRuns, c.workRuns.map some = [r]
  cancelled : c.cancelOk = true → c.workRuns = [] ∧ c.doneRuns = []
  ran : c.recycles = 1 → c.stage = .accepted → c.cancelOk = false →
    match c.kind with
    | .post => c.postRuns = 1
    | .submit hasDone => c.workRuns.length = 1 ∧ (hasDone = true → c.doneRuns.length = 1)

namespace OffloadLoop

/-- The item of a call is somebody's: the caller's, the worker's, a canceller's, the queue's, or the loop's. -/
def Underway (s : OffloadLoop) (k : ℕ) (c : Call) : Prop :=
  c.stage = .allocated ∨
  (c.hasTask = true ∧ c.cancelled = false ∧ (c.worker = .queued ∨ c.worker = .running ∨ c.worker = .worked)) ∨
  (∃ x ∈ s.cancels, x.call = k ∧ x.stage = .won) ∨
  c.item ∈ s.queue ∨
  ∃ f ∈ s.frames, f.item = c.item

/-- No item is used after it was recycled, none is recycled twice, what is called for a call is right, and what is not
recycled is under way. -/
structure Once (s : OffloadLoop) : Prop where
  safe : s.misused = false
  right : ∀ c ∈ s.calls, c.Right
  kept : ∀ k c, s.calls[k]? = some c → c.recycles = 0 → s.Underway k c

/-- **Exact**: everything is done once, and `inflight` is the number of the offloads whose worker has not finished. -/
structure Exact (s : OffloadLoop) : Prop extends Once s where
  inflight : s.inflight = s.calls.countP Call.unfinished

/-- The loop has counted down each offload that is finished. -/
def Dispatched (s : OffloadLoop) : Prop :=
  ∀ c ∈ s.calls, c.isPost = false → c.stage = .accepted → c.worker = .finished → c.uncounted = true

/-- The steps for which everything is done once: the loop looks at the task of an offload after its submitter has set it, and counts it
down after its submitter has counted it up; and a Cancel is of a call whose item is not recycled. -/
def Clean (s : OffloadLoop) : OffloadStep → Prop
  | .check => ∀ f ∈ s.frames.head?, ∀ c ∈ s.calls[(s.works f.item).call]?,
      c.isPost = true ∨ c.stage = .taskSet ∨ c.stage = .accepted
  | .uncount => ∀ f ∈ s.frames.head?, ∀ c ∈ s.calls[(s.works f.item).call]?, c.stage = .accepted
  | .cancelLoad k => ∀ c ∈ s.calls[k]?, c.recycles = 0
  | _ => True

instance (s : OffloadLoop) : (m : OffloadStep) → Decidable (s.Clean m)
  | .check => inferInstanceAs (Decidable (∀ f ∈ s.frames.head?, ∀ c ∈ s.calls[(s.works f.item).call]?, _ ∨ _))
  | .uncount => inferInstanceAs (Decidable (∀ f ∈ s.frames.head?, ∀ c ∈ s.calls[(s.works f.item).call]?, _ = _))
  | .cancelLoad k => inferInstanceAs (Decidable (∀ c ∈ s.calls[k]?, c.recycles = 0))
  | .alloc .. => .isTrue trivial
  | .submitTask .. => .isTrue trivial
  | .setTask _ => .isTrue trivial
  | .accept _ => .isTrue trivial
  | .postPush _ => .isTrue trivial
  | .start _ => .isTrue trivial
  | .work .. => .isTrue trivial
  | .push _ => .isTrue trivial
  | .finish _ => .isTrue trivial
  | .cancelTask _ => .isTrue trivial
  | .cancelPush _ => .isTrue trivial
  | .pop => .isTrue trivial
  | .wait => .isTrue trivial
  | .recycle => .isTrue trivial

end OffloadLoop

end Libx.Loop
