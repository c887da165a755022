import Libx.Agent.Prompt
import Libx.Agent.Effect

/-!
# Libx.Agent.Rounds — the rounds of a run are sequential and bounded

A run is in one of three phases: a submit is outstanding, tools are at work, or an error is being
reported.  Every call of the round is owed its result by one place: the rest of the dispatch loop, a
callback in progress or an entry of `async_pending_arr`.
-/

namespace Libx.Agent

open Libx.Core State List

/-! ### What the trace says -/

def Obs.round (run : ℕ) : Obs → Option ℕ
  | .submitted _ r turn _ _ _ => if r = run then some turn else none
  | _ => none

def rounds (run : ℕ) (tr : List Obs) : List ℕ := tr.filterMap (Obs.round run)

/-- A submit of `turn` by `run` behind the events `post`: it is the run's next, within the limit; the
round before has been received, and every call of the run so far has its result. -/
structure RoundOk (post : List Obs) (run turn limit : ℕ) (produced : List Entry) : Prop where
  next : turn = (rounds run post).length + 1
  bounded : turn ≤ limit
  received : 1 < turn → .provDone run (turn - 1) ∈ post
  answered : (produced.filterMap (fun e => e.content.callId)).Perm
    (produced.filterMap (fun e => e.content.answerId))

/-- **Rounds are strictly sequential and bounded.** -/
def Sequential (tr : List Obs) : Prop :=
  ∀ serial run turn limit msgs produced post,
    .submitted serial run turn limit msgs produced :: post <:+ tr → RoundOk post run turn limit produced

def Obs.isSubmit : Obs → Bool
  | .submitted .. => true
  | _ => false

variable {o : Obs}

theorem rounds_cons_other (h : o.isSubmit = false) (run : ℕ) (tr : List Obs) :
    rounds run (o :: tr) = rounds run tr := by
  cases o with
  | submitted => exact absurd h (by simp [Obs.isSubmit])
  | _ => rfl

theorem Sequential.other {tr : List Obs} (h : Sequential tr) (ho : o.isSubmit = false) :
    Sequential (o :: tr) := by
  intro serial run turn limit msgs produced post hs
  rcases suffix_cons_iff.mp hs with h1 | h1
  · injection h1 with h1 _
    rw [← h1] at ho
    exact absurd ho (by simp [Obs.isSubmit])
  · exact h _ _ _ _ _ _ _ h1

theorem Sequential.submit {serial run turn limit : ℕ} {msgs : List Message} {produced : List Entry}
    {tr : List Obs} (h : Sequential tr) (hr : RoundOk tr run turn limit produced) :
    Sequential (.submitted serial run turn limit msgs produced :: tr) := by
  intro serial' run' turn' limit' msgs' produced' post hs
  rcases suffix_cons_iff.mp hs with h1 | h1
  · injection h1 with h1 h2
    injection h1 with _ e1 e2 e3 _ e4
    rw [h2, e1, e2, e3, e4]
    exact hr
  · exact h _ _ _ _ _ _ _ h1

def AllPaired (tr : List Obs) : Prop :=
  ∀ serial run turn limit msgs produced,
    Obs.submitted serial run turn limit msgs produced ∈ tr → WellPaired msgs

theorem AllPaired.other {tr : List Obs} (h : AllPaired tr) (ho : o.isSubmit = false) :
    AllPaired (o :: tr) := by
  intro serial run turn limit msgs produced hm
  rcases mem_cons.mp hm with h1 | h1
  · rw [← h1] at ho
    exact absurd ho (by simp [Obs.isSubmit])
  · exact h _ _ _ _ _ _ h1

theorem answered_of_closed {es : List Entry} (h : Closed entryMark es) :
    (es.filterMap (fun e => e.content.callId)).Perm (es.filterMap (fun e => e.content.answerId)) := by
  have hcalls : ∀ es : List Entry, (es.map (fun e => (entryMark e).calls)).sum =
      (es.filterMap (fun e => e.content.callId) : Multiset Bytes) := by
    intro es
    induction es with
    | nil => rfl
    | cons e es ih =>
      rw [map_cons, sum_cons, ih, filterMap_cons]
      cases e with
      | text r t => cases r <;> simp [entryMark, Entry.role, Entry.content, Content.callId, Mark.calls,
          Content.answerId]
      | _ => simp [entryMark, Entry.role, Entry.content, Content.callId, Mark.calls, Content.answerId]
  have hanswers : ∀ es : List Entry, (es.map (fun e => (entryMark e).answers)).sum =
      (es.filterMap (fun e => e.content.answerId) : Multiset Bytes) := by
    intro es
    induction es with
    | nil => rfl
    | cons e es ih =>
      rw [map_cons, sum_cons, ih, filterMap_cons]
      cases e with
      | text r t => cases r <;> simp [entryMark, Entry.role, Entry.content, Content.callId,
          Mark.answers, Content.answerId]
      | _ => simp [entryMark, Entry.role, Entry.content, Content.callId, Mark.answers, Content.answerId]
  obtain ⟨b, hb⟩ := h
  have hbal := scan_balance hb
  rw [hcalls, hanswers] at hbal
  simp only [Owed.nothing, zero_add, add_zero] at hbal
  exact Multiset.coe_eq_coe.mp hbal

/-! ### Frames -/

/-- A callback of a tool, a decision or a completion. -/
def Frame.isTool : Frame → Bool
  | .confirm _ => true
  | .toolStart _ _ => true
  | .handler _ _ _ => true
  | .toolDone _ => true
  | .completeDone => true
  | _ => false

def Frame.isReport : Frame → Bool
  | .errFinish _ => true
  | .provErr _ => true
  | _ => false

/-- A callback whose return does nothing to the run. -/
def Frame.isIdle : Frame → Bool
  | .submit _ => true
  | .provCancel _ => true
  | .cancelTool _ _ => true
  | .compactDone => true
  | _ => false

/-- A callback of the dispatch loop, a report, or the caller's `on_done`: none of these is entered
from within a tool's callback. -/
def Frame.isBase : Frame → Bool
  | .confirm _ => true
  | .toolStart (.dispatch _) _ => true
  | .handler (.dispatch _) _ _ => true
  | .toolDone (.dispatch _) => true
  | .errFinish _ => true
  | .provErr _ => true
  | .sessDone => true
  | _ => false

/-- What the loop over the async entries was started for. -/
def Frame.cancels : Frame → Option CancelKind
  | .provCancel k => some k
  | .cancelTool _ k => some k
  | _ => none

/-- The callbacks whose return does something to the run. -/
def active (fs : List Frame) : List Frame := fs.filter (fun f => !f.isIdle)

def Stacked : List Frame → Prop
  | [] => True
  | f :: rest => (f.isBase = true → active rest = []) ∧
      (f.cancels = some .sessionDestroy → rest = []) ∧ f.cancels ≠ some .queryDestroy ∧ Stacked rest

variable {f : Frame}

theorem active_cons_idle (h : f.isIdle = true) (fs : List Frame) :
    active (f :: fs) = active fs :=
  filter_cons_of_neg (by simp [h])

theorem active_cons (h : f.isIdle = false) (fs : List Frame) :
    active (f :: fs) = f :: active fs :=
  filter_cons_of_pos (by simp [h])

theorem isIdle_of_isTool (h : f.isTool = true) : f.isIdle = false := by
  cases f <;> first | rfl | exact absurd h (by simp [Frame.isTool])

/-! ### What is owed -/

/-- The calls of the dispatch loop behind index `i`. -/
def restIds (pending : List Call) : InvokeKind → Multiset Bytes
  | .dispatch i => ((pending.drop (i + 1)).map Call.id : List Bytes)
  | .allow _ => 0

/-- The calls that a callback's return is to see answered. -/
def Frame.owes (pending : List Call) : Frame → Multiset Bytes
  | .confirm i => restIds pending (.dispatch i)
  | .toolStart k v => v.call.id ::ₘ restIds pending k
  | .handler k v _ => v.call.id ::ₘ restIds pending k
  | .toolDone k => restIds pending k
  | _ => 0

/-- What the phases are about: the Query, the stack, the submits and the trace. -/
structure Sight where
  running : Bool
  live : Bool
  cancelled : Bool
  turn : ℕ
  limit : ℕ
  inputs : List Entry
  produced : List Entry
  pending : List Call
  async : List AsyncTool
  stack : List Frame
  flights : List Flight
  run : ℕ
  trace : List Obs

def State.sight (s : State) : Sight :=
  ⟨s.q.running, s.q.live, s.q.cancelled, s.q.turn, turnLimit s.q.maxTurns, s.q.inputs, s.q.produced,
    s.q.pending, s.q.async, s.stack, s.flights, s.run, s.trace⟩

/-- The calls that wait in `async_pending_arr`. -/
def waiting (as : List AsyncTool) : Multiset Bytes := (as.map (fun a => a.call.id) : List Bytes)

def Sight.owed (w : Sight) : Multiset Bytes :=
  waiting w.async + (w.stack.map (Frame.owes w.pending)).sum

def Sight.own (w : Sight) : List Flight := w.flights.filter (fun f => f.run = w.run)

/-! ### The phases -/

/-- What holds in every phase. -/
structure Common (strict : Prop) (w : Sight) : Prop where
  log : Sequential w.trace
  paired : strict → AllPaired w.trace
  fresh : ∀ r, w.run < r → rounds r w.trace = []
  below : ∀ f ∈ w.flights, f.run ≤ w.run
  stacked : Stacked w.stack

/-- A run is going on. -/
structure On (strict : Prop) (w : Sight) : Prop extends Common strict w where
  running : w.running = true
  live : w.live = true
  count : (rounds w.run w.trace).length = w.turn
  inputs : strict → Closed entryMark w.inputs

/-- No run is going on.  What is left of an aborted one is ignored. -/
structure Resting (strict : Prop) (w : Sight) : Prop extends Common strict w where
  running : w.running = false
  frames : ∀ f ∈ active w.stack, f.isTool = true ∨ f = .sessDone
  released : w.live = false → active w.stack = [] ∧ w.async = []
  aborted : w.async ≠ [] ∨ (∃ f ∈ active w.stack, f.isTool = true) → w.cancelled = true
  tidy : strict → w.async = [] ∧ (∀ f ∈ active w.stack, f = .sessDone) ∧ Closed entryMark w.produced

/-- A submit is outstanding. -/
structure Flying (strict : Prop) (w : Sight) : Prop extends On strict w where
  frames : active w.stack = []
  async : w.async = []
  flight : ∃ f, w.own = [f] ∧ f.turn = w.turn
  closed : Closed entryMark w.produced

/-- Nothing is outstanding and no tool is at work. -/
structure Paused (strict : Prop) (w : Sight) : Prop extends On strict w where
  frames : active w.stack = []
  async : w.async = []
  own : w.own = []
  closed : Closed entryMark w.produced

/-- An error is being reported. -/
structure Reporting (strict : Prop) (w : Sight) : Prop extends On strict w where
  frames : ∃ f, active w.stack = [f] ∧ f.isReport = true
  async : w.async = []
  own : w.own = []
  closed : Closed entryMark w.produced

/-- Tools are at work; `extra` are the calls the library is just dealing with. -/
structure Work (strict : Prop) (extra : Multiset Bytes) (w : Sight) : Prop extends On strict w where
  frames : ∀ f ∈ active w.stack, f.isTool = true
  own : w.own = []
  landed : .provDone w.run w.turn ∈ w.trace
  room : w.turn < w.limit
  owed : ∃ b, scan entryMark .nothing w.produced = some ⟨w.owed + extra, b⟩

/-- The phases. -/
inductive Phase (strict : Prop) (w : Sight) : Prop
  | resting : Resting strict w → Phase strict w
  | flying : Flying strict w → Phase strict w
  | reporting : Reporting strict w → Phase strict w
  | working : Work strict 0 w → Phase strict w

/-! ### Small changes -/

theorem owes_idle {fs : List Frame} (h : active fs = []) (pending : List Call) :
    (fs.map (Frame.owes pending)).sum = 0 := by
  induction fs with
  | nil => rfl
  | cons f fs ih =>
    have hf : f.isIdle = true := by
      by_contra hf
      have hf : f.isIdle = false := by simpa using hf
      rw [active_cons hf] at h
      exact absurd h (by simp)
    rw [active_cons_idle hf] at h
    rw [map_cons, sum_cons, ih h, add_zero]
    cases f <;> first | rfl | exact absurd hf (by simp [Frame.isIdle])

variable {w : Sight}

theorem owed_idle (hf : active w.stack = []) (ha : w.async = []) : w.owed = 0 := by
  unfold Sight.owed
  rw [owes_idle hf, ha]
  rfl

variable {id : Bytes}

theorem waiting_remove {as rest : List AsyncTool} {a : AsyncTool}
    (h : asyncPendingRemove id as = some (a, rest)) : waiting as = a.call.id ::ₘ waiting rest := by
  obtain ⟨pre, post, rfl, rfl, -, -⟩ := asyncPendingRemove_some h
  unfold waiting
  rw [Multiset.cons_coe, Multiset.coe_eq_coe, map_append, map_cons, map_append]
  exact perm_middle

theorem mark_result {e : Entry} (h : e.resultId = some id) :
    entryMark e = .answer (some id) := by
  cases e with
  | toolResult i o b =>
    injection h with h
    rw [← h]
    rfl
  | _ => exact absurd h (by simp [Entry.resultId])

namespace Common

variable {strict : Prop} {w : Sight}

theorem emit (h : Common strict w) (ho : o.isSubmit = false) :
    Common strict { w with trace := o :: w.trace } := by
  refine ⟨h.log.other ho, fun hs => (h.paired hs).other ho, fun r hr => ?_, h.below, h.stacked⟩
  rw [rounds_cons_other ho]
  exact h.fresh r hr

theorem pop (h : Common strict w) {rest : List Frame} (hst : w.stack = f :: rest) :
    Common strict { w with stack := rest } := by
  have hs := h.stacked
  rw [hst] at hs
  exact ⟨h.log, h.paired, h.fresh, h.below, hs.2.2.2⟩

theorem push (h : Common strict w) (hb : f.isBase = true → active w.stack = [])
    (hc : f.cancels = some .sessionDestroy → w.stack = []) (hq : f.cancels ≠ some .queryDestroy) :
    Common strict { w with stack := f :: w.stack } :=
  ⟨h.log, h.paired, h.fresh, h.below, hb, hc, hq, h.stacked⟩

theorem land (h : Common strict w) (p : Flight → Bool) :
    Common strict { w with flights := w.flights.filter p } :=
  ⟨h.log, h.paired, h.fresh, fun f hf => h.below f (mem_filter.mp hf).1, h.stacked⟩

end Common

def Sight.released (w : Sight) : Sight :=
  { running := false, live := false, cancelled := false, turn := 0, limit := turnLimit 0, inputs := [],
    produced := [], pending := [], async := [], stack := w.stack, flights := w.flights, run := w.run,
    trace := w.trace }

theorem resting_released {strict : Prop} (h : Common strict w) (hf : active w.stack = []) :
    Resting strict w.released := by
  refine ⟨⟨h.log, h.paired, h.fresh, h.below, h.stacked⟩, rfl, ?_, fun _ => ⟨hf, rfl⟩, ?_, ?_⟩
  · intro f hm
    have hm : f ∈ active w.stack := hm
    rw [hf] at hm
    exact absurd hm (by simp)
  · rintro (h1 | ⟨f, hm, -⟩)
    · exact absurd rfl h1
    · have hm : f ∈ active w.stack := hm
      rw [hf] at hm
      exact absurd hm (by simp)
  · refine fun _ => ⟨rfl, fun f hm => ?_, .nil⟩
    have hm : f ∈ active w.stack := hm
    rw [hf] at hm
    exact absurd hm (by simp)

namespace On

variable {strict : Prop} {w : Sight}

theorem emit (h : On strict w) (ho : o.isSubmit = false) :
    On strict { w with trace := o :: w.trace } := by
  refine ⟨h.toCommon.emit ho, h.running, h.live, ?_, h.inputs⟩
  show (rounds w.run (o :: w.trace)).length = w.turn
  rw [rounds_cons_other ho]
  exact h.count

theorem pop (h : On strict w) {rest : List Frame} (hst : w.stack = f :: rest) :
    On strict { w with stack := rest } :=
  ⟨h.toCommon.pop hst, h.running, h.live, h.count, h.inputs⟩

theorem push (h : On strict w) (hb : f.isBase = true → active w.stack = [])
    (hc : f.cancels = some .sessionDestroy → w.stack = []) (hq : f.cancels ≠ some .queryDestroy) :
    On strict { w with stack := f :: w.stack } :=
  ⟨h.toCommon.push hb hc hq, h.running, h.live, h.count, h.inputs⟩

end On

/-! ### Tools at work -/

namespace Work

variable {strict : Prop} {w : Sight} {extra : Multiset Bytes}

theorem emit (h : Work strict extra w) (ho : o.isSubmit = false) :
    Work strict extra { w with trace := o :: w.trace } :=
  ⟨h.toOn.emit ho, h.frames, h.own, mem_cons_of_mem _ h.landed, h.room, h.owed⟩

theorem pop (h : Work strict extra w) {rest : List Frame} (hst : w.stack = f :: rest) :
    Work strict (f.owes w.pending + extra) { w with stack := rest } := by
  refine ⟨h.toOn.pop hst, ?_, h.own, h.landed, h.room, ?_⟩
  · intro g hg
    refine h.frames g ?_
    rw [hst]
    exact (List.Sublist.filter _ (sublist_cons_self f rest)).subset hg
  · obtain ⟨b, hb⟩ := h.owed
    refine ⟨b, ?_⟩
    have heq : w.owed = ({ w with stack := rest } : Sight).owed + f.owes w.pending := by
      unfold Sight.owed
      rw [hst, map_cons, sum_cons]
      rw [add_assoc, add_comm (f.owes w.pending)]
    rw [heq, add_assoc] at hb
    exact hb

theorem push (h : Work strict (f.owes w.pending + extra) w) (ht : f.isTool = true)
    (hb : f.isBase = true → Libx.Agent.active w.stack = []) :
    Work strict extra { w with stack := f :: w.stack } := by
  have hcancel : f.cancels = none := by
    cases f <;> first | rfl | exact absurd ht (by simp [Frame.isTool])
  refine ⟨h.toOn.push hb (by simp [hcancel]) (by simp [hcancel]), ?_, h.own, h.landed, h.room, ?_⟩
  · intro g hg
    rw [active_cons (isIdle_of_isTool ht)] at hg
    rcases mem_cons.mp hg with h1 | h1
    · rw [h1]
      exact ht
    · exact h.frames g h1
  · obtain ⟨b, hb'⟩ := h.owed
    refine ⟨b, ?_⟩
    have heq : ({ w with stack := f :: w.stack } : Sight).owed = w.owed + f.owes w.pending := by
      unfold Sight.owed
      rw [map_cons, sum_cons, add_assoc, add_comm (f.owes w.pending)]
    rw [heq, add_assoc]
    exact hb'

theorem idle (h : Work strict extra w) {fs : List Frame} (hc : Common strict { w with stack := fs })
    (ha : Libx.Agent.active fs = Libx.Agent.active w.stack)
    (ho : (fs.map (Frame.owes w.pending)).sum = (w.stack.map (Frame.owes w.pending)).sum) :
    Work strict extra { w with stack := fs } := by
  refine ⟨⟨hc, h.running, h.live, h.count, h.inputs⟩, ?_, h.own, h.landed, h.room, ?_⟩
  · show ∀ f ∈ Libx.Agent.active fs, f.isTool = true
    rw [ha]
    exact h.frames
  · obtain ⟨b, hb⟩ := h.owed
    refine ⟨b, ?_⟩
    have heq : ({ w with stack := fs } : Sight).owed = w.owed := by
      unfold Sight.owed
      rw [ho]
    rw [heq]
    exact hb

/-- **A call gets its result.** -/
theorem result {e : Entry} (h : Work strict (id ::ₘ extra) w) (he : e.resultId = some id) :
    Work strict extra { w with produced := w.produced ++ [e] } := by
  refine ⟨⟨⟨h.log, h.paired, h.fresh, h.below, h.stacked⟩, h.running, h.live, h.count, h.inputs⟩,
    h.frames, h.own, h.landed, h.room, ?_⟩
  obtain ⟨b, hb⟩ := h.owed
  refine ⟨false, ?_⟩
  have hstep : Owed.next ⟨w.owed + id ::ₘ extra, b⟩ (entryMark e) = some ⟨w.owed + extra, false⟩ := by
    rw [mark_result he, Multiset.add_cons]
    exact Owed.next_answer _ _ _
  show scan entryMark .nothing (w.produced ++ [e]) = _
  rw [scan_append_some hb, scan_cons, hstep]
  rfl

theorem enqueue {a : AsyncTool} (h : Work strict (a.call.id ::ₘ extra) w) :
    Work strict extra { w with async := w.async ++ [a] } := by
  refine ⟨⟨⟨h.log, h.paired, h.fresh, h.below, h.stacked⟩, h.running, h.live, h.count, h.inputs⟩,
    h.frames, h.own, h.landed, h.room, ?_⟩
  obtain ⟨b, hb⟩ := h.owed
  refine ⟨b, ?_⟩
  have heq : ({ w with async := w.async ++ [a] } : Sight).owed + extra = w.owed + a.call.id ::ₘ extra := by
    have hw : waiting (w.async ++ [a]) = a.call.id ::ₘ waiting w.async := by
      unfold waiting
      rw [Multiset.cons_coe, Multiset.coe_eq_coe, map_append]
      exact perm_append_singleton _ _
    unfold Sight.owed
    rw [hw, Multiset.cons_add, Multiset.cons_add, Multiset.add_cons]
  rw [heq]
  exact hb

theorem dequeue {a : AsyncTool} {rest : List AsyncTool} (h : Work strict extra w)
    (hr : asyncPendingRemove id w.async = some (a, rest)) :
    Work strict (a.call.id ::ₘ extra) { w with async := rest } := by
  refine ⟨⟨⟨h.log, h.paired, h.fresh, h.below, h.stacked⟩, h.running, h.live, h.count, h.inputs⟩,
    h.frames, h.own, h.landed, h.room, ?_⟩
  obtain ⟨b, hb⟩ := h.owed
  refine ⟨b, ?_⟩
  have heq : w.owed + extra = ({ w with async := rest } : Sight).owed + a.call.id ::ₘ extra := by
    unfold Sight.owed
    rw [waiting_remove hr, Multiset.cons_add, Multiset.cons_add, Multiset.add_cons]
  rw [← heq]
  exact hb

theorem clear (h : Work strict extra w) (hf : Libx.Agent.active w.stack = []) :
    Work strict extra { w with pending := [] } := by
  refine ⟨⟨⟨h.log, h.paired, h.fresh, h.below, h.stacked⟩, h.running, h.live, h.count, h.inputs⟩,
    h.frames, h.own, h.landed, h.room, ?_⟩
  obtain ⟨b, hb⟩ := h.owed
  refine ⟨b, ?_⟩
  have heq : ({ w with pending := [] } : Sight).owed = w.owed := by
    unfold Sight.owed
    rw [owes_idle hf, owes_idle hf]
  rw [heq]
  exact hb

theorem cast {extra' : Multiset Bytes} (h : Work strict extra w) (he : extra = extra') :
    Work strict extra' w := he ▸ h

theorem closed (h : Work strict 0 w) (hf : Libx.Agent.active w.stack = []) (ha : w.async = []) :
    Closed entryMark w.produced := by
  obtain ⟨b, hb⟩ := h.owed
  rw [owed_idle hf ha, add_zero] at hb
  exact ⟨b, hb⟩

end Work

/-! ### The end of a run -/

/-- A run that may end here: nothing waits unless it is aborted, and a paired user run leaves no call
without its result. -/
structure Ending (strict : Prop) (s : State) : Prop extends On strict s.sight where
  frames : active s.stack = []
  async : s.q.async ≠ [] → s.q.cancelled = true
  tidy : strict → s.sess.compacting = false → s.q.async = [] ∧ Closed entryMark s.q.produced

theorem endRun_sight (reason : DoneReason) (env : InputEnv) (s : State) :
    (s.endRun reason env).sight = { s.sight with
        running := false
        stack := .sessDone :: s.stack
        trace := .done s.run reason :: s.trace } ∧ s.sess.compacting = false ∨
    (s.endRun reason env).sight = { s.sight.released with
        stack := .compactDone :: s.stack
        trace := .done s.run reason :: s.trace } := by
  unfold State.endRun State.sessFwdOnDone
  split
  · right
    unfold State.compactFinished
    split
    · rfl
    · rfl
  · next hc => exact .inl ⟨rfl, by simpa [State.emit] using hc⟩

section

variable {strict : Prop} {s : State} {env : InputEnv}

/-- **The end of a run.** -/
theorem Ending.finalize (h : Ending strict s) (reason : DoneReason) (env : InputEnv) :
    Phase strict (s.finalize reason env).sight := by
  rw [finalize_of_running reason env h.running]
  have hbase := h.toCommon.emit (o := .done s.run reason) rfl
  rcases endRun_sight reason env s with ⟨he, hc⟩ | he
  · rw [he]
    have hact : active (.sessDone :: s.stack) = [.sessDone] := by
      rw [active_cons rfl, h.frames]
    have hstack := hbase.push (f := .sessDone) (fun _ => h.frames) (by simp [Frame.cancels])
      (by simp [Frame.cancels])
    refine .resting ⟨⟨hstack.log, hstack.paired, hstack.fresh, hstack.below, hstack.stacked⟩,
      rfl, ?_, ?_, ?_, ?_⟩
    · intro f hf
      rw [hact, mem_singleton] at hf
      exact .inr hf
    · intro hl
      have hl : s.q.live = false := hl
      rw [show s.q.live = true from h.live] at hl
      exact absurd hl (by simp)
    · rintro (h1 | ⟨f, hf, ht⟩)
      · exact h.async h1
      · rw [hact, mem_singleton] at hf
        rw [hf] at ht
        exact absurd ht (by simp [Frame.isTool])
    · intro hs
      obtain ⟨h1, h2⟩ := h.tidy hs hc
      refine ⟨h1, fun f hf => ?_, h2⟩
      rw [hact, mem_singleton] at hf
      exact hf
  · rw [he]
    have hact : active (.compactDone :: s.stack) = [] := by
      rw [active_cons_idle rfl, h.frames]
    have hstack := hbase.push (f := .compactDone) (fun hb => absurd hb (by simp [Frame.isBase]))
      (by simp [Frame.cancels]) (by simp [Frame.cancels])
    exact .resting (resting_released hstack hact)

/-! ### Submits -/

/-- The next round may be submitted. -/
structure Clear (strict : Prop) (w : Sight) : Prop extends Paused strict w where
  received : 0 < w.turn → .provDone w.run w.turn ∈ w.trace
  room : w.turn < w.limit

theorem Clear.submitted (h : Clear strict s.sight) {msgs : List Message}
    (hv : viewBuild s.q.inputs s.q.produced = .ok msgs) : Paused strict (s.prepareRound msgs).sight := by
  have hmsgs : msgs = view (s.q.inputs ++ s.q.produced) := by
    unfold viewBuild at hv
    split_ifs at hv
    injection hv with hv
    exact hv.symm
  have hround : RoundOk s.trace s.run (s.q.turn + 1) (turnLimit s.q.maxTurns) s.q.produced := by
    refine ⟨?_, ?_, ?_, answered_of_closed h.closed⟩
    · exact congrArg (· + 1) h.count.symm
    · exact h.room
    · intro hlt
      exact h.received (by show 0 < s.q.turn; omega)
  have hne : ∀ r, s.run < r → Obs.round r (.submitted s.nextSerial s.run (s.q.turn + 1)
      (turnLimit s.q.maxTurns) msgs s.q.produced) = none := by
    intro r hr
    simp only [Obs.round]
    rw [if_neg (by omega)]
  refine ⟨⟨⟨h.log.submit hround, ?_, ?_, h.below, h.stacked⟩, h.running, h.live, ?_, h.inputs⟩,
    h.frames, h.async, h.own, h.closed⟩
  · intro hs serial run turn limit msgs' produced hm
    rcases mem_cons.mp hm with h1 | h1
    · injection h1 with _ _ _ _ e _
      rw [e, hmsgs]
      exact wellPaired_view ((h.inputs hs).append h.closed)
    · exact h.paired hs _ _ _ _ _ _ h1
  · intro r hr
    show rounds r (_ :: s.trace) = []
    rw [rounds, filterMap_cons, hne r hr]
    exact h.fresh r hr
  · show (rounds s.run (_ :: s.trace)).length = s.q.turn + 1
    rw [rounds, filterMap_cons]
    simp only [Obs.round, if_true, length_cons]
    exact congrArg (· + 1) h.count

theorem Paused.report (h : Paused strict w) (hf : f.isReport = true) :
    Reporting strict { w with stack := f :: w.stack } := by
  have hcancel : f.cancels = none := by
    cases f <;> first | rfl | exact absurd hf (by simp [Frame.isReport])
  have hidle : f.isIdle = false := by
    cases f <;> first | rfl | exact absurd hf (by simp [Frame.isReport])
  refine ⟨h.toOn.push (fun _ => h.frames) (by simp [hcancel]) (by simp [hcancel]), ⟨f, ?_, hf⟩,
    h.async, h.own, h.closed⟩
  show active (f :: w.stack) = _
  rw [active_cons hidle, h.frames]

theorem Paused.fly (h : Paused strict w) (k : SubmitKind) (f : Flight)
    (hr : f.run = w.run) (ht : f.turn = w.turn) :
    Flying strict { w with stack := .submit k :: w.stack, flights := f :: w.flights } := by
  have hon := h.toOn.push (f := .submit k) (fun hb => absurd hb (by simp [Frame.isBase]))
    (by simp [Frame.cancels]) (by simp [Frame.cancels])
  refine ⟨⟨⟨hon.log, hon.paired, hon.fresh, ?_, hon.stacked⟩, hon.running, hon.live, hon.count,
    hon.inputs⟩, ?_, h.async, ⟨f, ?_, ht⟩, h.closed⟩
  · intro g hg
    rcases mem_cons.mp hg with h1 | h1
    · rw [h1, hr]
    · exact h.below g h1
  · show active (.submit k :: w.stack) = []
    rw [active_cons_idle rfl, h.frames]
  · show (f :: w.flights).filter (fun f => f.run = w.run) = [f]
    rw [filter_cons_of_pos (by simp [hr])]
    exact congrArg (f :: ·) h.own

/-- **`submit_round`** from the tool loop or a tail. -/
theorem Clear.submitRound {k : SubmitKind} (hk : ∀ rk, k ≠ .run rk) (h : Clear strict s.sight)
    (env : InputEnv) : Phase strict (s.submitRound k env).sight := by
  have hfail : ∀ (rc : Errno) (u : State), Paused strict u.sight →
      Phase strict (u.submitFailed k rc).sight := by
    intro rc u hu
    have hrep : Phase strict (u.push (.errFinish .modelError)).sight :=
      .reporting (hu.report rfl)
    cases k with
    | run rk => exact absurd rfl (hk rk)
    | _ => exact hrep
  unfold State.submitRound
  cases hv : viewBuild s.q.inputs s.q.produced with
  | error rc => exact hfail rc s h.toPaused
  | ok msgs =>
    have hsub := h.submitted hv
    dsimp only
    split
    · exact .flying (hsub.fly k _ rfl rfl)
    · exact hfail _ _ hsub

/-! ### The tails -/

theorem Work.ready (h : Work strict 0 w) (hf : active w.stack = []) (ha : w.async = []) :
    Clear strict w :=
  ⟨⟨h.toOn, hf, ha, h.own, h.closed hf ha⟩, fun _ => h.landed, h.room⟩

/-- **A tail**: nothing is to be at work when it finds nothing waiting. -/
theorem Work.tailCheck {k : SubmitKind} (hk : ∀ rk, k ≠ .run rk) (h : Work strict 0 s.sight)
    (hlast : s.q.async = [] → active s.stack = []) (env : InputEnv) :
    Phase strict (s.tailCheck k env).sight := by
  unfold State.tailCheck
  split
  · next ha =>
    have hf := hlast ha
    split
    · exact Ending.finalize ⟨h.toOn, hf, fun hne => absurd ha hne, fun _ _ => ⟨ha, h.closed hf ha⟩⟩ _ _
    · exact (h.ready hf ha).submitRound hk env
  · exact .working h

theorem Work.afterDispatch {extra : Multiset Bytes} (h : Work strict extra s.sight)
    (hf : active s.stack = []) (hdone : s.q.cancelled = false → extra = 0)
    (hwhole : strict → s.q.cancelled = true → s.q.async = [] ∧ extra = 0) (env : InputEnv) :
    Phase strict (s.afterDispatch env).sight := by
  have hclear : Work strict extra ({ s with q := { s.q with pending := [] } } : State).sight :=
    Work.clear h hf
  unfold State.afterDispatch
  dsimp only
  split
  · next hc =>
    refine Ending.finalize ⟨hclear.toOn, hf, fun _ => hc, fun hs _ => ?_⟩ _ _
    obtain ⟨ha, he⟩ := hwhole hs hc
    rw [he] at hclear
    exact ⟨ha, hclear.closed hf ha⟩
  · next hc =>
    have he := hdone (by simpa using hc)
    rw [he] at hclear
    split
    · exact .working hclear
    · next ha =>
      have ha : s.q.async = [] := by simpa using ha
      exact (hclear.ready hf ha).submitRound (by simp) env

/-! ### The dispatch loop -/

/-- **The dispatch loop** over the calls `cs`. -/
theorem Work.dispatchFrom (env : InputEnv) : ∀ (cs : List Call) (i : ℕ) (s : State),
    Work strict (cs.map Call.id : List Bytes) s.sight → active s.stack = [] →
    s.q.pending.drop i = cs →
    (strict → s.q.cancelled = true → s.q.async = [] ∧ cs = []) →
    Phase strict (s.dispatchFrom env cs i).sight
  | [], _, s, h, hf, _, hwhole => by
    refine Work.afterDispatch (show Work strict 0 s.sight from h) hf (fun _ => rfl) (fun hs hc => ?_) env
    exact ⟨(hwhole hs hc).1, rfl⟩
  | c :: cs, i, s, h, hf, hdrop, hwhole => by
    have hrest : s.q.pending.drop (i + 1) = cs := by
      rw [← drop_drop, hdrop]
      rfl
    have hcons : ((c :: cs).map Call.id : List Bytes) = c.id :: cs.map Call.id := rfl
    rw [hcons, ← Multiset.cons_coe] at h
    unfold State.dispatchFrom
    split
    · next hc =>
      refine h.afterDispatch hf (fun hno => ?_) (fun hs hc' => ?_) env
      · rw [hc] at hno
        exact absurd hno (by simp)
      · exact absurd (hwhole hs hc').2 (by simp)
    · next hc =>
      split
      · -- an unknown tool has its result at once
        have hlive : s.q.live = true := h.live
        have happ := append_live s.q [unknownToolResult c] hlive
        rw [happ]
        refine Work.dispatchFrom env cs (i + 1) _ (h.result rfl) hf hrest ?_
        intro _ hc'
        exact absurd hc' hc
      · next t _ =>
        split
        · -- the decision is asked for, and the call waits
          have hwait := (h.enqueue (a := ⟨t, c, .awaitingConfirm, some s.resolvers.length, 0⟩)).emit
            (o := .asked s.resolvers.length c) rfl
          have howes : (cs.map Call.id : List Bytes) = Frame.owes s.q.pending (.confirm i) + 0 := by
            rw [Frame.owes, restIds, hrest, add_zero]
          have hpush := Work.push (hwait.cast howes) rfl (fun _ => hf)
          exact .working hpush
        · -- the handler is to be called
          have howes : c.id ::ₘ (cs.map Call.id : List Bytes) = Frame.owes s.q.pending
              (.toolStart (.dispatch i) ⟨t, c, none, s.confirmSet⟩) + 0 := by
            rw [Frame.owes, restIds, hrest, add_zero]
          have hpush := Work.push (h.cast howes) rfl (fun _ => hf)
          exact .working hpush

/-! ### The end of a round -/

theorem scan_assistantTurn (q : Query) {es : List Entry} (h : Closed entryMark es) :
    ∃ b, scan entryMark .nothing (es ++ assistantTurn q) =
      some ⟨(q.pending.map Call.id : List Bytes), b⟩ := by
  obtain ⟨b, hb⟩ := h
  rw [scan_append_some hb]
  by_cases hne : assistantTurn q = []
  · have hp : q.pending = [] := by
      have := (append_eq_nil_iff.mp hne).2
      simpa using this
    rw [hne, hp]
    exact ⟨b, rfl⟩
  · refine ⟨true, ?_⟩
    have hm : (assistantTurn q).map entryMark = (((if q.reasoning = [] then [] else [none]) ++
        (if q.assist = [] then [] else [none])) ++ q.pending.map (fun p : Call => some p.id)).map Mark.turn := by
      unfold assistantTurn
      rw [map_append, map_append, map_append, map_append, map_map, map_map]
      congr 1
      congr 1
      · split_ifs <;> rfl
      · split_ifs <;> rfl
    rw [scan_turn (.inr rfl) hm hne, zero_add, reduceOption_append, reduceOption_append]
    have h1 : (if q.reasoning = [] then [] else [none] : List (Option Bytes)).reduceOption = [] := by
      split_ifs <;> rfl
    have h2 : (if q.assist = [] then [] else [none] : List (Option Bytes)).reduceOption = [] := by
      split_ifs <;> rfl
    have h3 : (q.pending.map (fun p => some p.id)).reduceOption = q.pending.map Call.id := by
      rw [List.reduceOption, filterMap_map]
      exact filterMap_eq_map' ▸ rfl
    rw [h1, h2, h3, nil_append, nil_append]

/-- **The end of a round**: the Assistant turn is committed, and its calls are dispatched or the run
ends.  A paired user run dispatches what it commits. -/
theorem Paused.commitAndBranch (h : Paused strict s.sight) (reason : ProviderStop) (userCancel : Bool)
    (env : InputEnv) (hl : reason = .toolUse → .provDone s.run s.q.turn ∈ s.trace)
    (hcancel : reason = .toolUse → s.q.cancelled = true → userCancel = true)
    (hwhole : strict → s.sess.compacting = false → s.q.pending ≠ [] →
      userCancel = false ∧ reason = .toolUse ∧ s.q.turn < turnLimit s.q.maxTurns) :
    Phase strict (s.commitAndBranch reason userCancel env).sight := by
  obtain ⟨b, hb⟩ := scan_assistantTurn s.q h.closed
  have hlive : s.q.live = true := h.live
  have hcommit : commitAssistantTurn s.q =
      { s.q with produced := s.q.produced ++ assistantTurn s.q } := append_live _ _ hlive
  unfold State.commitAndBranch
  rw [hcommit]
  dsimp only
  have hon : On strict
      ({ s with q := { s.q with produced := s.q.produced ++ assistantTurn s.q } } : State).sight :=
    ⟨⟨h.log, h.paired, h.fresh, h.below, h.stacked⟩, h.running, h.live, h.count, h.inputs⟩
  have hasync : s.q.async = [] := h.async
  split
  · next hd =>
    simp only [Bool.and_eq_true, Bool.not_eq_true', decide_eq_true_eq] at hd
    obtain ⟨⟨huc, hr⟩, hp⟩ := hd
    unfold State.toolLoop
    split
    · next hturn =>
      refine Ending.finalize ⟨hon, h.frames, fun hne => absurd hasync hne, fun hs hc => ?_⟩ _ _
      have := (hwhole hs hc hp).2.2
      have hturn : s.q.turn ≥ turnLimit s.q.maxTurns := hturn
      omega
    · next hturn =>
      have hroom : s.q.turn < turnLimit s.q.maxTurns := by
        have hturn : ¬ s.q.turn ≥ turnLimit s.q.maxTurns := hturn
        omega
      refine Work.dispatchFrom env s.q.pending 0 _ ⟨hon, ?_, h.own, hl hr, hroom, b, ?_⟩ h.frames rfl
        (fun _ hc => ?_)
      · intro f hf
        have hf : f ∈ active s.stack := hf
        rw [show active s.stack = [] from h.frames] at hf
        exact absurd hf (by simp)
      · have howed : ({ s with q := { s.q with produced := s.q.produced ++ assistantTurn s.q } } :
            State).sight.owed = 0 := owed_idle h.frames h.async
        rw [howed, zero_add]
        exact hb
      · rw [hcancel hr hc] at huc
        exact absurd huc (by simp)
  · next hd =>
    refine Ending.finalize ⟨hon, h.frames, fun hne => absurd hasync hne, fun hs hc => ⟨hasync, b, ?_⟩⟩ _ _
    have hp : s.q.pending = [] := by
      by_contra hp
      obtain ⟨h1, h2, -⟩ := hwhole hs hc hp
      exact hd (by simp [h1, h2, hp])
    rw [hp] at hb
    exact hb

theorem Flying.land (h : Flying strict s.sight) {serial : ℕ} {f : Flight}
    (hf : s.flights.find? (fun f => f.serial = serial) = some f) (hr : f.run = s.run) :
    Paused strict ((s.land serial).emit (.provDone f.run f.turn)).sight ∧ f.turn = s.q.turn := by
  obtain ⟨g, hown, hturn⟩ := h.flight
  have hown : s.flights.filter (fun f => f.run = s.run) = [g] := hown
  have hmem : f ∈ s.flights.filter (fun f => f.run = s.run) :=
    mem_filter.mpr ⟨mem_of_find?_eq_some hf, by simp [hr]⟩
  rw [hown, mem_singleton] at hmem
  subst hmem
  have hserial : f.serial = serial := by simpa using List.find?_some hf
  have hland := (h.toOn.emit (o := .provDone f.run f.turn) rfl)
  refine ⟨⟨⟨⟨hland.log, hland.paired, hland.fresh, fun x hx => h.below x (mem_filter.mp hx).1,
    h.stacked⟩, h.running, h.live, hland.count, h.inputs⟩, h.frames, h.async, ?_, h.closed⟩, hturn⟩
  show (s.flights.filter (fun x => x.serial ≠ serial)).filter (fun x => x.run = s.run) = []
  have hcomm : ∀ (p q : Flight → Bool) (l : List Flight), (l.filter p).filter q = (l.filter q).filter p := by
    intro p q l
    rw [filter_filter, filter_filter]
    exact filter_congr fun x _ => Bool.and_comm _ _
  rw [hcomm, hown]
  simp [hserial]

theorem usage_sight (s : State) (u : Option Usage) (seq : ℕ) :
    ({ s with q := usageAccumulate s.q u seq } : State).sight = s.sight := by
  obtain ⟨_, _, _, _, he⟩ := usageAccumulate_frame s.q u seq
  rw [he]
  rfl

/-! ### What is left of an aborted run -/

/-- Tools of an aborted run are still at work, or its entries wait. -/
structure Leftover (strict : Prop) (w : Sight) : Prop extends Common strict w where
  running : w.running = false
  live : w.live = true
  cancelled : w.cancelled = true
  loose : ¬ strict
  frames : ∀ f ∈ active w.stack, f.isTool = true ∨ f = .sessDone

theorem Leftover.resting (h : Leftover strict w) : Resting strict w := by
  refine ⟨h.toCommon, h.running, h.frames, fun hl => ?_, fun _ => h.cancelled, fun hs => absurd hs h.loose⟩
  rw [h.live] at hl
  exact absurd hl (by simp)

theorem Resting.leftover (h : Resting strict w)
    (hw : w.async ≠ [] ∨ ∃ f ∈ active w.stack, f.isTool = true) : Leftover strict w := by
  have hlive : w.live = true := by
    by_contra hl
    obtain ⟨h1, h2⟩ := h.released (by simpa using hl)
    rcases hw with hw | ⟨f, hf, -⟩
    · exact hw h2
    · rw [h1] at hf
      exact absurd hf (by simp)
  refine ⟨h.toCommon, h.running, hlive, h.aborted hw, fun hs => ?_, h.frames⟩
  obtain ⟨h1, h2, -⟩ := h.tidy hs
  rcases hw with hw | ⟨f, hf, ht⟩
  · exact hw h1
  · rw [h2 f hf] at ht
    exact absurd ht (by simp [Frame.isTool])

namespace Leftover

theorem finalize (h : Leftover strict s.sight) (reason : DoneReason) :
    Phase strict (s.finalize reason env).sight := by
  have hr : s.q.running = false := h.running
  unfold State.finalize
  rw [hr, if_neg (by simp)]
  exact .resting h.resting

theorem tailCheck (h : Leftover strict s.sight) (k : SubmitKind) :
    Phase strict (s.tailCheck k env).sight := by
  have hc : s.q.cancelled = true := h.cancelled
  unfold State.tailCheck
  split
  · exact h.finalize _
  · exact .resting h.resting

theorem afterDispatch (h : Leftover strict s.sight) : Phase strict (s.afterDispatch env).sight := by
  have hc : s.q.cancelled = true := h.cancelled
  have hclear : Leftover strict ({ s with q := { s.q with pending := [] } } : State).sight :=
    ⟨⟨h.log, h.paired, h.fresh, h.below, h.stacked⟩, h.running, h.live, h.cancelled, h.loose, h.frames⟩
  unfold State.afterDispatch
  dsimp only
  split
  · exact hclear.finalize _
  · next hno => exact absurd hc hno

theorem dispatchFrom (h : Leftover strict s.sight) (cs : List Call) (i : ℕ) :
    Phase strict (s.dispatchFrom env cs i).sight := by
  have hc : s.q.cancelled = true := h.cancelled
  cases cs with
  | nil => exact h.afterDispatch
  | cons c cs =>
    unfold State.dispatchFrom
    rw [if_pos hc]
    exact h.afterDispatch

theorem afterInvoke (h : Leftover strict s.sight) (k : InvokeKind) :
    Phase strict (s.afterInvoke k env).sight := by
  cases k with
  | dispatch i => exact h.dispatchFrom _ _
  | allow r => exact h.tailCheck _

theorem pop (h : Leftover strict w) {rest : List Frame}
    (hst : w.stack = f :: rest) : Leftover strict { w with stack := rest } := by
  refine ⟨h.toCommon.pop hst, h.running, h.live, h.cancelled, h.loose, fun g hg => h.frames g ?_⟩
  rw [hst]
  exact (List.Sublist.filter _ (sublist_cons_self f rest)).subset hg

theorem push (h : Leftover strict w) (ht : f.isTool = true)
    (hb : f.isBase = true → active w.stack = []) : Leftover strict { w with stack := f :: w.stack } := by
  have hcancel : f.cancels = none := by
    cases f <;> first | rfl | exact absurd ht (by simp [Frame.isTool])
  refine ⟨h.toCommon.push hb (by simp [hcancel]) (by simp [hcancel]), h.running, h.live, h.cancelled,
    h.loose, fun g hg => ?_⟩
  rw [active_cons (isIdle_of_isTool ht)] at hg
  rcases mem_cons.mp hg with h1 | h1
  · rw [h1]
    exact .inl ht
  · exact h.frames g h1

end Leftover

end

end Libx.Agent
