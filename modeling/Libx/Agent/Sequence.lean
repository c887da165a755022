import Libx.Agent.Rounds
import Libx.Agent.Confirm

/-!
# Libx.Agent.Sequence — every step keeps the phase of the run
-/

namespace Libx.Agent

open Libx.Core State List

/-! ### The conditions -/

/-- The callback's return is followed by the test for an empty `async_pending_arr`. -/
def Frame.isTail : Frame → Bool
  | .completeDone => true
  | .toolDone (.allow _) => true
  | _ => false

/-- The decision leaves `async_pending_arr` empty. -/
def State.lastDecided (s : State) (r : ℕ) : Bool :=
  match s.resolvers[r]? with
  | none => false
  | some v => !v.done && v.valid &&
    match asyncPendingRemove v.id s.q.async with
    | some (_, []) => true
    | _ => false

/-- A tail that finds `async_pending_arr` empty is not inside another tool's callback. -/
def tailsLast (s : State) (l : Label) : Bool :=
  match l.move with
  | .resolve r .reject _ => !(s.q.running && s.lastDecided r) || (active s.stack).isEmpty
  | .ret =>
    match s.stack with
    | f :: rest => !(s.q.running && f.isTail && s.q.async.isEmpty) || (active rest).isEmpty
    | [] => true
  | _ => true

/-- A call or an end that the provider delivers to a running Query is for a submit of its own run. -/
def ownRun (s : State) (l : Label) : Bool :=
  match l.move with
  | .toolCall serial _ _ _ =>
    !s.q.running || (s.flights.find? (fun f => f.serial = serial)).all (fun f => f.run = s.run)
  | .done serial _ _ _ =>
    !s.q.running || (s.flights.find? (fun f => f.serial = serial)).all (fun f => f.run = s.run)
  | _ => true

/-- The round ends without losing a call: its calls are dispatched when it has any (a compact run's
are dropped), and the dispatch loop is not left with a call that has no result. -/
def whole (s : State) (l : Label) : Bool :=
  !s.q.running ||
  match l.move with
  | .done _ reason err _ =>
    s.sess.compacting || s.q.pending.isEmpty || (reason = .error && err ≠ .ok) ||
      (reason = .toolUse && !s.q.cancelled && s.q.turn < turnLimit s.q.maxTurns)
  | .handlerRet .pending _ =>
    match s.stack with
    | .handler (.dispatch _) _ _ :: _ => !s.q.cancelled
    | _ => true
  | .ret =>
    match s.stack with
    | .provErr _ :: _ => s.sess.compacting || s.q.pending.isEmpty
    | .confirm i :: _ => !s.q.cancelled || (s.q.async.isEmpty && (s.q.pending.drop (i + 1)).isEmpty)
    | .toolDone (.dispatch i) :: _ =>
      !s.q.cancelled || (s.q.async.isEmpty && (s.q.pending.drop (i + 1)).isEmpty)
    | _ => true
  | _ => true

section

variable {strict : Prop} {s : State} {env : InputEnv}

/-! ### Small steps -/

namespace Phase

variable {w : Sight}

theorem emit (h : Phase strict w) {o : Obs} (ho : o.isSubmit = false) :
    Phase strict { w with trace := o :: w.trace } := by
  cases h with
  | resting h =>
    exact .resting ⟨h.toCommon.emit ho, h.running, h.frames, h.released, h.aborted, h.tidy⟩
  | flying h => exact .flying ⟨h.toOn.emit ho, h.frames, h.async, h.flight, h.closed⟩
  | reporting h => exact .reporting ⟨h.toOn.emit ho, h.frames, h.async, h.own, h.closed⟩
  | working h => exact .working (h.emit ho)

theorem idle (h : Phase strict w) {fs : List Frame}
    (hc : Common strict { w with stack := fs }) (ha : active fs = active w.stack)
    (ho : (fs.map (Frame.owes w.pending)).sum = (w.stack.map (Frame.owes w.pending)).sum) :
    Phase strict { w with stack := fs } := by
  have hon : On strict w → On strict { w with stack := fs } := fun h =>
    ⟨hc, h.running, h.live, h.count, h.inputs⟩
  cases h with
  | resting h =>
    refine .resting ⟨hc, h.running, ?_, ?_, ?_, ?_⟩
    · show ∀ f ∈ active fs, _
      rw [ha]
      exact h.frames
    · show _ → active fs = [] ∧ _
      rw [ha]
      exact h.released
    · show (_ ∨ ∃ f ∈ active fs, _) → _
      rw [ha]
      exact h.aborted
    · show strict → _ ∧ (∀ f ∈ active fs, _) ∧ _
      rw [ha]
      exact h.tidy
  | flying h => exact .flying ⟨hon h.toOn, ha.trans h.frames, h.async, h.flight, h.closed⟩
  | reporting h =>
    obtain ⟨f, hf, hr⟩ := h.frames
    exact .reporting ⟨hon h.toOn, ⟨f, ha.trans hf, hr⟩, h.async, h.own, h.closed⟩
  | working h => exact .working (h.idle hc ha ho)

theorem common (h : Phase strict w) : Common strict w := by
  cases h with
  | resting h | flying h | reporting h | working h => exact h.toCommon

variable {f : Frame}

theorem owes_of_idle (h : f.isIdle = true) (pending : List Call) : f.owes pending = 0 := by
  cases f <;> first | rfl | exact absurd h (by simp [Frame.isIdle])

variable {rest : List Frame}

theorem pop (h : Phase strict w)
    (hst : w.stack = f :: rest) (hf : f.isIdle = true) : Phase strict { w with stack := rest } := by
  refine h.idle (h.common.pop hst) ?_ ?_
  · rw [hst, active_cons_idle hf]
  · rw [hst, map_cons, sum_cons, owes_of_idle hf, zero_add]

theorem push (h : Phase strict w) (hf : f.isIdle = true)
    (hc : f.cancels = some .sessionDestroy → w.stack = []) (hq : f.cancels ≠ some .queryDestroy) :
    Phase strict { w with stack := f :: w.stack } := by
  have hb : f.isBase = false := by
    cases f <;> first | rfl | exact absurd hf (by simp [Frame.isIdle])
  refine h.idle (h.common.push (fun hb' => ?_) hc hq) (active_cons_idle hf _) ?_
  · rw [hb] at hb'
    exact absurd hb' (by simp)
  · rw [map_cons, sum_cons, owes_of_idle hf, zero_add]

theorem mark (h : Phase strict w) (hr : w.running = true) :
    Phase strict { w with cancelled := true } := by
  have hon : On strict w → On strict { w with cancelled := true } := fun h =>
    ⟨⟨h.log, h.paired, h.fresh, h.below, h.stacked⟩, h.running, h.live, h.count, h.inputs⟩
  cases h with
  | resting h =>
    rw [h.running] at hr
    exact absurd hr (by simp)
  | flying h => exact .flying ⟨hon h.toOn, h.frames, h.async, h.flight, h.closed⟩
  | reporting h => exact .reporting ⟨hon h.toOn, h.frames, h.async, h.own, h.closed⟩
  | working h => exact .working ⟨hon h.toOn, h.frames, h.own, h.landed, h.room, h.owed⟩

theorem tool (h : Phase strict w)
    (hst : w.stack = f :: rest) (hf : f.isTool = true) : Work strict 0 w ∨ Leftover strict w := by
  have hact : active w.stack = f :: active rest := by
    rw [hst, active_cons (isIdle_of_isTool hf)]
  cases h with
  | resting h =>
    exact .inr (h.leftover (.inr ⟨f, by rw [hact]; exact mem_cons_self, hf⟩))
  | flying h =>
    rw [h.frames] at hact
    exact absurd hact (by simp)
  | reporting h =>
    obtain ⟨g, hg, hr⟩ := h.frames
    rw [hg] at hact
    injection hact with h1 _
    exact absurd hr (by cases f <;> simp_all [Frame.isTool, Frame.isReport])
  | working h => exact .inl h

theorem waits (h : Phase strict w) (ha : w.async ≠ []) :
    Work strict 0 w ∨ Leftover strict w := by
  cases h with
  | resting h => exact .inr (h.leftover (.inl ha))
  | flying h | reporting h => exact absurd h.async ha
  | working h => exact .inl h

theorem report (h : Phase strict w)
    (hst : w.stack = f :: rest) (hf : f.isReport = true) :
    Paused strict { w with stack := rest } := by
  have hidle : f.isIdle = false := by
    cases f <;> first | rfl | exact absurd hf (by simp [Frame.isReport])
  have hact : active w.stack = f :: active rest := by
    rw [hst, active_cons hidle]
  have hno : f.isTool = true ∨ f = .sessDone → False := by
    rintro (h1 | h1)
    · cases f <;> simp_all [Frame.isTool, Frame.isReport]
    · rw [h1] at hf
      exact absurd hf (by simp [Frame.isReport])
  cases h with
  | resting h =>
    exact absurd (h.frames f (by rw [hact]; exact mem_cons_self)) hno
  | flying h =>
    rw [h.frames] at hact
    exact absurd hact (by simp)
  | reporting h =>
    obtain ⟨g, hg, -⟩ := h.frames
    rw [hg] at hact
    injection hact with _ h2
    exact ⟨h.toOn.pop hst, h2.symm, h.async, h.own, h.closed⟩
  | working h =>
    exact absurd (.inl (h.frames f (by rw [hact]; exact mem_cons_self))) hno

theorem sessDone (h : Phase strict w)
    (hst : w.stack = .sessDone :: rest) : Resting strict w ∧ active rest = [] := by
  have hact : active w.stack = .sessDone :: active rest := by
    rw [hst, active_cons rfl]
  have hrest : active rest = [] := by
    have hs := h.common.stacked
    rw [hst] at hs
    exact hs.1 rfl
  refine ⟨?_, hrest⟩
  cases h with
  | resting h => exact h
  | flying h =>
    rw [h.frames] at hact
    exact absurd hact (by simp)
  | reporting h =>
    obtain ⟨g, hg, hr⟩ := h.frames
    rw [hg] at hact
    injection hact with h1 _
    rw [h1] at hr
    exact absurd hr (by simp [Frame.isReport])
  | working h =>
    have := h.frames .sessDone (by rw [hact]; exact mem_cons_self)
    exact absurd this (by simp [Frame.isTool])

theorem notLive (h : Phase strict w) (hl : w.live = false) : Resting strict w := by
  have hon : On strict w → False := fun h => by
    rw [h.live] at hl
    exact absurd hl (by simp)
  cases h with
  | resting h => exact h
  | flying h | reporting h | working h => exact (hon h.toOn).elim

theorem notRunning (h : Phase strict w) (hl : w.running = false) : Resting strict w := by
  have hon : On strict w → False := fun h => by
    rw [h.running] at hl
    exact absurd hl (by simp)
  cases h with
  | resting h => exact h
  | flying h | reporting h | working h => exact (hon h.toOn).elim

theorem own (h : Phase strict w) (hr : w.running = true) {f : Flight}
    (hf : f ∈ w.flights) (hrun : f.run = w.run) : Flying strict w := by
  have hmem : f ∈ w.own := mem_filter.mpr ⟨hf, by simp [hrun]⟩
  cases h with
  | resting h =>
    rw [h.running] at hr
    exact absurd hr (by simp)
  | flying h => exact h
  | reporting h | working h =>
    rw [h.own] at hmem
    exact absurd hmem (by simp)

end Phase

/-! ### Tools -/

/-- **The handler is called.** -/
theorem callHandler_phase {k : InvokeKind} {v : Invocation} {rest : List Frame}
    (h : Phase strict s.sight) (hst : s.stack = .toolStart k v :: rest) :
    Phase strict (State.callHandler k v { s with stack := rest }).sight := by
  have hbase : (Frame.handler k v s.calls.length).isBase = true → active rest = [] := by
    intro hb
    have hs := h.common.stacked
    rw [show s.sight.stack = .toolStart k v :: rest from hst] at hs
    exact hs.1 (by cases k <;> simp_all [Frame.isBase])
  rcases h.tool hst rfl with h | h
  · have hpop := h.pop hst
    have hpush : Work strict 0 _ := Work.push (w := { s.sight with stack := rest })
      (f := .handler k v s.calls.length) hpop rfl hbase
    exact .working (hpush.emit rfl)
  · have hpush := (h.pop hst).push (f := .handler k v s.calls.length) rfl hbase
    exact (Phase.resting hpush.resting).emit rfl

theorem Work.afterInvoke {k : InvokeKind} (h : Work strict (restIds s.q.pending k) s.sight)
    (hbase : (Frame.toolDone k).isBase = true → active s.stack = [])
    (hlast : (∃ r, k = .allow r) → s.q.async = [] → active s.stack = [])
    (hwhole : strict → ∀ i, k = .dispatch i → s.q.cancelled = true →
      s.q.async = [] ∧ s.q.pending.drop (i + 1) = []) (env : InputEnv) :
    Phase strict (s.afterInvoke k env).sight := by
  cases k with
  | dispatch i => exact h.dispatchFrom env _ _ _ (hbase rfl) rfl (fun hs => hwhole hs i rfl)
  | allow r => exact h.tailCheck (by simp) (hlast ⟨r, rfl⟩) env

/-- **The handler returns.** -/
theorem handlerReturned_phase {k : InvokeKind} {v : Invocation} {inv : ℕ} {rest : List Frame}
    (h : Phase strict s.sight) (hst : s.stack = .handler k v inv :: rest) (trc : Errno) (out : ToolOut)
    (hwhole : strict → s.q.running = true → ∀ i, k = .dispatch i → trc = .pending →
      s.q.cancelled = false) (env : InputEnv) :
    Phase strict (State.handlerReturned k v inv trc out env { s with stack := rest }).sight := by
  have hbase : (Frame.toolDone k).isBase = true → active rest = [] := by
    intro hb
    have hs := h.common.stacked
    rw [show s.sight.stack = .handler k v inv :: rest from hst] at hs
    exact hs.1 (by cases k <;> simp_all [Frame.isBase])
  unfold State.handlerReturned
  rcases h.tool hst rfl with h | h
  · have hlive : s.q.live = true := h.live
    have hpop : Work strict (v.call.id ::ₘ restIds s.q.pending k)
        ({ s with stack := rest } : State).sight := (h.pop hst).cast (add_zero _)
    rw [if_neg (by simp [hlive])]
    split
    · next hp =>
      have hwait := Work.enqueue (a := ⟨v.tool, v.call, .running, none, inv⟩) hpop
      refine Work.afterInvoke (s := { s with stack := rest, q := { s.q with async :=
        s.q.async ++ [⟨v.tool, v.call, .running, none, inv⟩] } }) hwait hbase ?_ ?_ env
      · intro _ ha
        exact absurd ha (by simp)
      · intro hs i hk hc
        rw [show s.q.cancelled = true from hc] at hwhole
        exact absurd (hwhole hs h.running i hk hp) (by simp)
    · rw [append_live _ _ hlive]
      have hres := hpop.result (e := resultOf v.call.id trc out) (resultOf_id _ _ _)
      have hpush := Work.push (f := .toolDone k) (hres.cast (add_zero _).symm) rfl hbase
      exact .working hpush
  · have hlive : s.q.live = true := h.live
    have hpop : Leftover strict ({ s with stack := rest } : State).sight := h.pop hst
    rw [if_neg (by simp [hlive])]
    split
    · have hwait : Leftover strict ({ s with stack := rest, q := { s.q with async :=
        s.q.async ++ [⟨v.tool, v.call, .running, none, inv⟩] } } : State).sight :=
        ⟨⟨hpop.log, hpop.paired, hpop.fresh, hpop.below, hpop.stacked⟩, hpop.running, hpop.live,
          hpop.cancelled, hpop.loose, hpop.frames⟩
      exact hwait.afterInvoke k
    · rw [append_live _ _ hlive]
      have hres : Leftover strict ({ s with stack := rest, q := { s.q with produced :=
        s.q.produced ++ [resultOf v.call.id trc out] } } : State).sight :=
        ⟨⟨hpop.log, hpop.paired, hpop.fresh, hpop.below, hpop.stacked⟩, hpop.running, hpop.live,
          hpop.cancelled, hpop.loose, hpop.frames⟩
      exact .resting (hres.push (f := .toolDone k) rfl hbase).resting

/-- **A completion.** -/
theorem asyncToolComplete_phase (h : Phase strict s.sight) (id : Bytes) (out : ToolOut) :
    Phase strict (s.asyncToolComplete id out).sight := by
  unfold State.asyncToolComplete
  cases hr : asyncPendingRemove id s.q.async with
  | none => exact h
  | some p =>
    obtain ⟨a, rest⟩ := p
    dsimp only
    have ha : s.q.async ≠ [] := by
      intro ha
      rw [ha] at hr
      exact absurd hr (by simp [asyncPendingRemove])
    rcases h.waits ha with h | h
    · have hlive : s.q.live = true := h.live
      rw [append_live { s.q with async := rest } _ hlive]
      have hres := (h.dequeue hr).result (e := completionOf a.call out) (completionOf_id _ _)
      have hpush := Work.push (f := .completeDone) (hres.cast (add_zero _).symm) rfl (by simp [Frame.isBase])
      exact .working hpush
    · have hlive : s.q.live = true := h.live
      rw [append_live { s.q with async := rest } _ hlive]
      have hres : Leftover strict ({ s with q := { s.q with async := rest, produced :=
        s.q.produced ++ [completionOf a.call out] } } : State).sight :=
        ⟨⟨h.log, h.paired, h.fresh, h.below, h.stacked⟩, h.running, h.live, h.cancelled, h.loose, h.frames⟩
      exact .resting (hres.push (f := .completeDone) rfl (by simp [Frame.isBase])).resting

/-- **A decision.** -/
theorem toolConfirmResolve_phase (h : Phase strict s.sight) {r : ℕ} {v : Resolver}
    (hv : s.resolvers[r]? = some v) (d : Decision) (reason : Bytes)
    (hlast : d = .reject → s.q.running = true → s.lastDecided r = true → active s.stack = [])
    (env : InputEnv) : Phase strict (s.toolConfirmResolve r v d reason env).sight := by
  unfold State.toolConfirmResolve
  split
  · exact h
  next hdone =>
  have hdec : Phase strict (({ s with resolvers := s.resolvers.set r { v with done := true } } :
      State).emit (.decided r d)).sight := h.emit (o := .decided r d) rfl
  dsimp only
  split
  · exact hdec
  next hval =>
  have hq : (({ s with resolvers := s.resolvers.set r { v with done := true } } :
      State).emit (.decided r d)).q = s.q := rfl
  rw [hq]
  cases hr : asyncPendingRemove v.id s.q.async with
  | none => exact hdec
  | some p =>
    obtain ⟨a, rest⟩ := p
    have ha : s.q.async ≠ [] := by
      intro ha
      rw [ha] at hr
      exact absurd hr (by simp [asyncPendingRemove])
    rcases hdec.waits ha with hw | hw
    · have hlive : s.q.live = true := hw.live
      have hdeq := hw.dequeue hr
      cases d with
      | reject =>
        dsimp only
        rw [append_live { s.q with async := rest } _ hlive]
        have hres := hdeq.result (e := rejectedResult a.call.id reason) (rejectedResult_id _ _)
        refine Work.tailCheck (by simp) hres (fun hempty => ?_) env
        refine hlast rfl hw.running ?_
        have hempty : rest = [] := hempty
        rw [hempty] at hr
        simp only [State.lastDecided, hv, hr, Bool.and_true, Bool.and_eq_true, Bool.not_eq_true']
        exact ⟨by simpa using hdone, by simpa using hval⟩
      | allow =>
        have hpush := Work.push (f := .toolStart (.allow r) ⟨a.tool, a.call, a.resolver, s.confirmSet⟩)
          (hdeq.cast (add_zero _).symm) rfl (by simp [Frame.isBase])
        exact .working hpush
    · have hlive : s.q.live = true := hw.live
      cases d with
      | reject =>
        dsimp only
        rw [append_live { s.q with async := rest } _ hlive]
        refine Leftover.tailCheck ?_ _
        exact ⟨⟨hw.log, hw.paired, hw.fresh, hw.below, hw.stacked⟩, hw.running, hw.live, hw.cancelled,
          hw.loose, hw.frames⟩
      | allow =>
        have hdeq : Leftover strict ({ s with q := { s.q with async := rest }
                                              trace := .decided r .allow :: s.trace } : State).sight :=
          ⟨⟨hw.log, hw.paired, hw.fresh, hw.below, hw.stacked⟩, hw.running, hw.live, hw.cancelled,
            hw.loose, hw.frames⟩
        exact .resting (hdeq.push (f := .toolStart (.allow r) ⟨a.tool, a.call, a.resolver, s.confirmSet⟩)
          rfl (by simp [Frame.isBase])).resting

/-! ### The provider -/

theorem Resting.land {w : Sight} (h : Resting strict w) (p : Flight → Bool) :
    Resting strict { w with flights := w.flights.filter p } :=
  ⟨h.toCommon.land p, h.running, h.frames, h.released, h.aborted, h.tidy⟩

/-- **`on_provider_done`.** -/
theorem onProviderDone_phase (h : Phase strict s.sight) {serial : ℕ} {f : Flight}
    (hf : s.flights.find? (fun f => f.serial = serial) = some f) (reason : ProviderStop) (err : Errno)
    (usage : Option Usage) (hown : s.q.running = true → f.run = s.run)
    (hwhole : strict → s.q.running = true → s.sess.compacting = false → s.q.pending ≠ [] →
      ¬ (reason = .error ∧ err ≠ .ok) →
      reason = .toolUse ∧ s.q.cancelled = false ∧ s.q.turn < turnLimit s.q.maxTurns) :
    Phase strict (State.onProviderDone reason err usage f.seq env
      ((s.land serial).emit (.provDone f.run f.turn))).sight := by
  unfold State.onProviderDone
  split
  · next hr =>
    have hr : s.q.running = false := by simpa [State.emit, State.land] using hr
    exact (Phase.resting ((h.notRunning hr).land _)).emit (o := .provDone f.run f.turn) rfl
  next hr =>
  have hr : s.q.running = true := by simpa [State.emit, State.land] using hr
  have hfly := h.own hr (mem_of_find?_eq_some hf) (hown hr)
  obtain ⟨hland, hturn⟩ := hfly.land hf (hown hr)
  rw [← usage_sight _ usage f.seq] at hland
  split
  · exact .reporting (hland.report rfl)
  · next herr =>
    refine hland.commitAndBranch _ _ env (fun _ => ?_) (fun _ hc => ?_) (fun hs hcomp hp => ?_)
    · obtain ⟨_, _, _, _, he⟩ := usageAccumulate_frame ((s.land serial).emit (.provDone f.run f.turn)).q
        usage f.seq
      rw [he]
      show .provDone s.run s.q.turn ∈ .provDone f.run f.turn :: s.trace
      rw [hturn, hown hr]
      exact mem_cons_self
    · obtain ⟨_, _, _, _, he⟩ := usageAccumulate_frame ((s.land serial).emit (.provDone f.run f.turn)).q
        usage f.seq
      rw [he] at hc ⊢
      have hc : s.q.cancelled = true := hc
      show (decide (reason = .cancelled) || s.q.cancelled) = true
      rw [hc, Bool.or_true]
    · obtain ⟨_, _, _, _, he⟩ := usageAccumulate_frame ((s.land serial).emit (.provDone f.run f.turn)).q
        usage f.seq
      rw [he] at hp ⊢
      obtain ⟨h1, h2, h3⟩ := hwhole hs hr hcomp hp herr
      refine ⟨?_, h1, h3⟩
      have h2 : ((s.land serial).emit (.provDone f.run f.turn)).q.cancelled = false := h2
      rw [h1, h2]
      rfl

/-! ### Input -/

theorem returnInput_phase (h : Phase strict s.sight) (auto : Bool) (rc : Errno) :
    Phase strict (returnInput auto rc s).sight := by
  cases auto with
  | true => exact h
  | false => exact h.emit (o := .inputRet rc) rfl

theorem runFailed_phase (hc : Common strict s.sight) (hf : active s.stack = []) (k : RunKind) (rc : Errno) :
    Phase strict (runFailed k rc s).sight := by
  cases k with
  | user checkpoint auto =>
    refine returnInput_phase ?_ auto rc
    exact .resting (resting_released (w := s.sight) hc hf)
  | compact auto =>
    refine returnInput_phase ?_ auto .promptTooLong
    exact .resting (resting_released (w := s.sight) hc hf)

/-- **`submit_round`** from `xAgentQueryRun`. -/
theorem Clear.submitRun (h : Clear strict s.sight) (k : RunKind) (env : InputEnv) :
    Phase strict (s.submitRound (.run k) env).sight := by
  unfold State.submitRound
  cases hv : viewBuild s.q.inputs s.q.produced with
  | error rc => exact runFailed_phase h.toCommon h.frames k rc
  | ok msgs =>
    have hsub := h.submitted hv
    dsimp only
    split
    · exact .flying (hsub.fly (.run k) _ rfl rfl)
    · exact runFailed_phase hsub.toCommon hsub.frames k _

theorem turnLimit_pos (maxTurns : ℤ) : 0 < turnLimit maxTurns := by
  unfold turnLimit
  split_ifs
  · omega
  · decide

/-- **A run starts.** -/
theorem queryRun_phase (h : Resting strict s.sight) (hf : active s.stack = []) (user : Bool)
    (maxTurns : ℤ) (k : RunKind) {msgs : List Message}
    (hm : strict → Closed entryMark (turnBufAppend msgs)) (env : InputEnv) :
    Phase strict (queryRun k msgs env (create user maxTurns s)).sight := by
  have hcommon : Common strict (create user maxTurns s).sight := by
    refine ⟨h.log, h.paired, fun r hr => h.fresh r ?_, fun f hm => ?_, h.stacked⟩
    · have hr : s.run + 1 < r := hr
      show s.run < r
      omega
    · have := h.below f hm
      show f.run ≤ s.run + 1
      have this : f.run ≤ s.run := this
      omega
  unfold queryRun
  split
  · refine Clear.submitRun ?_ k env
    refine ⟨⟨⟨⟨hcommon.log, hcommon.paired, hcommon.fresh, hcommon.below, hcommon.stacked⟩, rfl, rfl, ?_, hm⟩,
      hf, rfl, ?_, .nil⟩, fun h0 => absurd h0 (by simp [State.sight, create, queryCreate]),
      turnLimit_pos maxTurns⟩
    · show (rounds (s.run + 1) s.trace).length = 0
      rw [show rounds (s.run + 1) s.trace = [] from h.fresh _ (Nat.lt_succ_self _)]
      rfl
    · show s.flights.filter (fun f => f.run = s.run + 1) = []
      rw [filter_eq_nil_iff]
      intro f hfl
      have : f.run ≤ s.run := h.below f hfl
      simp only [decide_eq_true_eq]
      omega
  · exact runFailed_phase hcommon hf k _

variable {k : CancelKind}

/-- **`xAgentSessionInput`.** -/
theorem sessionInput_phase (h : Phase strict s.sight) (auto : Bool) (msg : Message)
    (hh : strict → Closed entryMark (entries s.sess.history))
    (env : InputEnv) : Phase strict (s.sessionInput auto msg env).sight := by
  unfold State.sessionInput
  split
  · exact returnInput_phase h auto .busy
  next hlive =>
  simp only [Bool.or_eq_true, not_or, Bool.not_eq_true] at hlive
  have hrest := h.notLive hlive.1
  have hf : active s.stack = [] := (hrest.released hlive.1).1
  cases hg : sessionEnforceBudget s.conf msg.contents env s.sess with
  | refuse rc x => exact returnInput_phase h auto rc
  | launch x msgs =>
    dsimp only
    split
    · exact returnInput_phase h auto .noMemory
    · refine queryRun_phase (s := { s with sess := { x with compacting := true } }) hrest hf false 1
        (.compact auto) (fun hs => ?_) env
      exact (launch_closed (hh hs) hg).1
  | pass x =>
    have hx : strict → Closed entryMark (entries x.history) := by
      intro hs
      have := gate_closed s.conf msg.contents env (hh hs)
      rw [hg] at this
      exact this
    unfold acceptInput
    dsimp only
    split
    · exact returnInput_phase h auto .noMemory
    · split
      · exact returnInput_phase h auto _
      · next msgs hmsgs =>
        split
        · exact returnInput_phase h auto .noMemory
        · refine queryRun_phase (s := { s with
            sess := { x with
              history := x.history ++ slotsFrom s.nextUid [.text msg.role (textOf msg.contents)]
              deltaEntries := x.deltaEntries + 1
              overheadTokens := overheadOf s.conf.systemPrompt env.memText }
            nextUid := s.nextUid + 1 }) hrest hf true s.conf.maxTurns (.user x.history.length auto)
            (fun hs => ?_) env
          have hnoted : Closed entryMark (entries (x.history ++
              slotsFrom s.nextUid [.text msg.role (textOf msg.contents)])) := by
            rw [entries, map_append]
            exact (hx hs).append (closed_text _ _)
          exact inputs_closed hnoted hmsgs

/-! ### Cancel and destroy -/

theorem cancelEnd_phase (h : Phase strict s.sight) (hk : k ≠ .queryDestroy)
    (hempty : k = .sessionDestroy → s.stack = []) : Phase strict (s.cancelEnd k).sight := by
  cases k with
  | cancel => exact h
  | queryDestroy => exact absurd rfl hk
  | sessionDestroy =>
    refine .resting (resting_released (w := s.sight) h.common ?_)
    show active s.stack = []
    rw [hempty rfl]
    rfl

/-- **The loop over the async entries.** -/
theorem cancelFrom_phase (hk : k ≠ .queryDestroy) : ∀ (as : List AsyncTool) (i : ℕ)
    (s : State), Phase strict s.sight → (k = .sessionDestroy → s.stack = []) →
    Phase strict (s.cancelFrom k as i).sight
  | [], _, _, h, hempty => cancelEnd_phase h hk hempty
  | a :: as, i, s, h, hempty => by
    unfold State.cancelFrom
    split
    · exact cancelFrom_phase hk as (i + 1) { s with resolvers := invalidate s.resolvers a.resolver } h hempty
    · refine h.push (f := .cancelTool i k) rfl (fun hc => hempty ?_) (fun hc => hk ?_)
      · injection hc
      · injection hc

theorem markCancel_phase (h : Phase strict s.sight) (hr : s.q.running = true)
    (hk : k ≠ .queryDestroy) (hempty : k = .sessionDestroy → s.stack = []) :
    Phase strict (s.markCancel k).sight := by
  refine (h.mark hr).push (f := .provCancel k) rfl (fun hc => hempty ?_) (fun hc => hk ?_)
  · injection hc
  · injection hc

theorem cancelReturned_phase {f : Frame} {rest : List Frame} (h : Phase strict s.sight)
    (hst : s.stack = f :: rest) (hf : f.isIdle = true) (hk : f.cancels = some k) (i : ℕ) :
    Phase strict (State.cancelLoop k i { s with stack := rest }).sight := by
  have hs := h.common.stacked
  rw [show s.sight.stack = f :: rest from hst] at hs
  obtain ⟨-, h2, h3, -⟩ := hs
  rw [hk] at h2 h3
  exact cancelFrom_phase (fun he => h3 (by rw [he])) _ _ _ (h.pop hst hf) (fun he => h2 (by rw [he]))

/-! ### One step -/

theorem whole_dispatch {i : ℕ} (hr : s.q.running = true)
    (h : (!s.q.running || (!s.q.cancelled || (s.q.async.isEmpty && (s.q.pending.drop (i + 1)).isEmpty)))
      = true) (hc : s.q.cancelled = true) : s.q.async = [] ∧ s.q.pending.drop (i + 1) = [] := by
  simp only [hr, hc, Bool.not_true, Bool.false_or, Bool.and_eq_true, List.isEmpty_iff] at h
  exact h

/-- **One step** keeps the phase. -/
theorem Phase.step {t : State} {l : Label} (h : Phase strict s.sight) (hlast : tailsLast s l = true)
    (hown : ownRun s l = true) (hwhole : strict → whole s l = true)
    (hh : strict → s.alive = true → Closed entryMark (entries s.sess.history))
    (hs : step s l = some t) : Phase strict t.sight := by
  have ht := took_of_step hs
  obtain ⟨m, env⟩ := l
  have htail : ∀ {f : Frame} {rest : List Frame}, m = .ret → s.stack = f :: rest → f.isTail = true →
      s.q.running = true → s.q.async = [] → active rest = [] := by
    intro f rest hm hst hf hr ha
    simpa [tailsLast, hm, hst, hf, hr, ha] using hlast
  cases ht with
  | input msg ha => exact sessionInput_phase h false msg (fun hs => hh hs ha) env
  | cancel _ =>
    unfold State.sessionCancel
    split
    · next hr =>
      rw [Bool.and_eq_true] at hr
      exact markCancel_phase h hr.2 (by simp) (by simp)
    · exact h
  | resolve r d reason v hv =>
    refine toolConfirmResolve_phase h hv d reason (fun hd hr hl => ?_) env
    simpa [tailsLast, hd, hr, hl] using hlast
  | complete id out inv =>
    exact asyncToolComplete_phase (s := { s with delivered := inv :: s.delivered }) h id out
  | text serial chunk _ =>
    obtain ⟨_, he⟩ := onProviderText_frame s.q chunk
    rw [he]
    exact h
  | thinking serial chunk _ =>
    obtain ⟨_, he⟩ := onProviderThinking_frame s.q chunk
    rw [he]
    exact h
  | toolCall serial id name args hin =>
    obtain ⟨_, he⟩ := onProviderToolCall_frame s.q id name args
    rw [he]
    by_cases hr : s.q.running = true
    · obtain ⟨f, hf⟩ : ∃ f, s.flights.find? (fun f => f.serial = serial) = some f := by
        obtain ⟨f, hf, hp⟩ := any_eq_true.mp hin
        exact Option.isSome_iff_exists.mp (List.find?_isSome.mpr ⟨f, hf, hp⟩)
      have hrun : f.run = s.run := by simpa [ownRun, hr, hf] using hown
      have hfly := h.own hr (mem_of_find?_eq_some hf) hrun
      exact .flying ⟨⟨⟨hfly.log, hfly.paired, hfly.fresh, hfly.below, hfly.stacked⟩, hfly.running,
        hfly.live, hfly.count, hfly.inputs⟩, hfly.frames, hfly.async, hfly.flight, hfly.closed⟩
    · have hr : s.q.running = false := by simpa using hr
      have hrest := h.notRunning hr
      exact .resting ⟨⟨hrest.log, hrest.paired, hrest.fresh, hrest.below, hrest.stacked⟩,
        hrest.running, hrest.frames, hrest.released, hrest.aborted, hrest.tidy⟩
  | done serial reason err usage f hf =>
    refine onProviderDone_phase h hf reason err usage (fun hr => ?_) (fun hs hr hcomp hp herr => ?_)
    · simpa [ownRun, hr, hf] using hown
    · have hw := hwhole hs
      simp only [whole, hr, hcomp, Bool.not_true, Bool.false_or, Bool.or_eq_true, Bool.and_eq_true,
        decide_eq_true_eq, List.isEmpty_iff, hp, false_or, Bool.not_eq_true'] at hw
      rcases hw with hw | ⟨⟨h1, h2⟩, h3⟩
      · exact absurd (by simpa using hw) herr
      · exact ⟨h1, h2, h3⟩
  | handlerRet trc out k v inv rest hst =>
    refine handlerReturned_phase h hst trc out (fun hs hr i hk hp => ?_) env
    have hw := hwhole hs
    rw [hk] at hst
    simpa [whole, hr, hp, hst] using hw
  | retSubmit k rest hst =>
    have hp := h.pop hst rfl
    unfold submitAccepted
    split
    · exact returnInput_phase (s := { s with stack := rest }) hp _ _
    · exact returnInput_phase (s := { s with stack := rest }) hp _ _
    · exact hp
  | retConfirm i rest hst =>
    have hbase : active rest = [] := by
      have hst' := h.common.stacked
      rw [show s.sight.stack = .confirm i :: rest from hst] at hst'
      exact hst'.1 rfl
    rcases h.tool hst rfl with hw | hw
    · refine Work.dispatchFrom env _ _ _ ((hw.pop hst).cast (add_zero _)) hbase rfl (fun hs hc => ?_)
      have hwh := hwhole hs
      simp only [whole, hst] at hwh
      exact whole_dispatch hw.running hwh hc
    · exact (hw.pop hst).dispatchFrom _ _
  | retToolStart k v rest hst => exact callHandler_phase h hst
  | retToolDone k rest hst =>
    have hbase : (Frame.toolDone k).isBase = true → active rest = [] := by
      have hst' := h.common.stacked
      rw [show s.sight.stack = .toolDone k :: rest from hst] at hst'
      exact hst'.1
    rcases h.tool hst rfl with hw | hw
    · refine Work.afterInvoke (s := { s with stack := rest }) ((hw.pop hst).cast (add_zero _)) hbase
        ?_ (fun hs i hk hc => ?_) env
      · rintro ⟨r, hk⟩ ha
        exact htail rfl hst (by rw [hk]; rfl) hw.running ha
      · have hwh := hwhole hs
        rw [hk] at hst
        simp only [whole, hst] at hwh
        exact whole_dispatch hw.running hwh hc
    · exact (hw.pop hst).afterInvoke k
  | retCompleteDone rest hst =>
    rcases h.tool hst rfl with hw | hw
    · refine Work.tailCheck (s := { s with stack := rest }) (by simp) ((hw.pop hst).cast (add_zero _))
        (fun ha => ?_) env
      exact htail rfl hst rfl hw.running ha
    · exact (hw.pop hst).tailCheck _
  | retErrFinish reason rest hst =>
    have hp : Paused strict ({ s with stack := rest } : State).sight := h.report hst rfl
    have hend : Ending strict { s with stack := rest } :=
      ⟨hp.toOn, hp.frames, fun ha => absurd hp.async ha, fun _ _ => ⟨hp.async, hp.closed⟩⟩
    exact hend.finalize reason env
  | retProvErr c rest hst =>
    have hp : Paused strict ({ s with stack := rest } : State).sight := h.report hst rfl
    refine hp.commitAndBranch .error c env (by simp) (by simp)
      (fun hs hcomp hne => ?_)
    have hr : s.q.running = true := hp.running
    have hcomp : s.sess.compacting = false := hcomp
    have hwh := hwhole hs
    simp [whole, hst, hr, hcomp, hne] at hwh
  | retProvCancel k rest hst _ => exact cancelReturned_phase h hst rfl rfl 0
  | retCancelTool i k rest hst _ => exact cancelReturned_phase h hst rfl rfl (i + 1)
  | retSessDone rest hst =>
    obtain ⟨hrest, hact⟩ := h.sessDone hst
    have hr : s.q.running = false := hrest.running
    unfold State.destroy
    rw [if_neg (by simp [hr])]
    exact .resting (resting_released (w := ({ s with stack := rest } : State).sight)
      (h.common.pop hst) hact)
  | retCompactDone rest hst ha =>
    have hp := h.pop hst rfl
    unfold State.autoRetryPending
    split
    · exact hp
    · exact sessionInput_phase (s := { s with stack := rest, sess := { s.sess with pendingText := none } })
        hp true _ (fun hs => hh hs ha) env
  | setContextWindow n _ | create n _ => exact h
  | destroy hst _ =>
    unfold State.destroy
    split
    · next hr => exact markCancel_phase h hr (by simp) (fun _ => hst)
    · exact cancelEnd_phase h (by simp) (fun _ => hst)

end

/-! ### Runs -/

theorem phase_init (strict : Prop) (conf : Conf) (contextWindow : ℕ) (store : List Slot) (nextUid : ℕ) :
    Phase strict (init conf contextWindow store nextUid).sight := by
  have hnil : ∀ {o : Obs} {post : List Obs}, ¬ o :: post <:+ [] := by
    intro o post h
    exact absurd (suffix_nil.mp h) (by simp)
  refine .resting ⟨⟨fun _ _ _ _ _ _ _ h => absurd h hnil, fun _ _ _ _ _ _ _ h => absurd h (by simp [
    State.sight, init, createSession]), fun _ _ => rfl, fun f h => absurd h (by simp [State.sight, init,
    createSession]), trivial⟩, rfl, fun f h => absurd h (by simp [State.sight, init, createSession, active]),
    fun _ => ⟨rfl, rfl⟩, ?_, fun _ => ⟨rfl, fun f h => absurd h (by simp [State.sight, init, createSession,
    active]), .nil⟩⟩
  rintro (h | ⟨f, h, -⟩)
  · exact absurd rfl h
  · exact absurd h (by simp [State.sight, init, createSession, active])

/-- **Rounds are sequential and bounded while no tail runs inside another tool's callback**: over any
tools, any streamed calls and any order of completions and decisions. -/
theorem sequential_of_run {conf : Conf} {contextWindow nextUid : ℕ} {store : List Slot} {s : State}
    (h : Run step (fun s l => tailsLast s l = true ∧ ownRun s l = true)
      (init conf contextWindow store nextUid) s) : Sequential s.trace := by
  have hphase : Phase False s.sight :=
    h.preserves (I := fun s => Phase False s.sight)
      (fun _ _ _ hi hok hs => hi.step hok.1 hok.2 False.elim False.elim hs) (phase_init _ _ _ _ _)
  exact hphase.common.log

/-- The model asks for two gated calls; the host rejects the first, within `on_tool_confirm` when
`inside`, else after the dispatch loop. -/
def rejectFirst (inside : Bool) : List Label :=
  [⟨.input hello, {}⟩, ⟨.ret, {}⟩,
    ⟨.toolCall 0 (some (bytes "a")) (some (bytes "rm")) (some (bytes "1")), {}⟩,
    ⟨.toolCall 0 (some (bytes "b")) (some (bytes "rm")) (some (bytes "2")), {}⟩,
    ⟨.done 0 .toolUse .ok none, {}⟩] ++
  (if inside then [⟨.resolve 0 .reject [], {}⟩]
    else [⟨.ret, {}⟩, ⟨.ret, {}⟩, ⟨.resolve 0 .reject [], {}⟩, ⟨.resolve 1 .reject [], {}⟩])

def submits (T : List Obs) : ℕ := T.countP Obs.isSubmit

/-- Decisions taken after the dispatch loop meet the condition, and the second round is submitted. -/
theorem sequential_of_run_two :
    ∃ s, Run step (fun s l => tailsLast s l = true ∧ ownRun s l = true) (init gatedConf 0 [] 0) s ∧
      submits s.trace = 2 ∧ Sequential s.trace := by
  obtain ⟨s, hs, hn⟩ := exists_run_of_replay step (fun s l => tailsLast s l = true ∧ ownRun s l = true)
    (fun s l => tailsLast s l && ownRun s l) (fun s => submits s.trace = 2)
    (fun _ _ h => by simpa using h)
    (show replay step _ _ (init gatedConf 0 [] 0) (rejectFirst false) = true by rfl)
  exact ⟨s, hs, by simpa using hn, sequential_of_run hs⟩

/-- A submit that leaves calls behind without a result. -/
def leftBehind (o : Obs) : Bool :=
  match o with
  | .submitted _ _ _ _ _ produced =>
    (produced.filterMap (fun e => e.content.callId)).length ≠
      (produced.filterMap (fun e => e.content.answerId)).length
  | _ => false

theorem not_sequential_of_leftBehind {T : List Obs} (h : T.any leftBehind = true) : ¬ Sequential T := by
  intro hseq
  obtain ⟨o, ho, hm⟩ := any_eq_true.mp h
  cases o with
  | submitted serial run turn limit msgs produced =>
    obtain ⟨pre, post, rfl⟩ := append_of_mem ho
    have hround := hseq serial run turn limit msgs produced post ⟨pre, rfl⟩
    simp only [leftBehind, ne_eq, decide_not, Bool.not_eq_true', decide_eq_false_iff_not] at hm
    exact hm hround.answered.length_eq
  | _ => simp [leftBehind] at hm

/-- **A Reject within `on_tool_confirm`** submits the next round before the second call of the round
has been dispatched. -/
theorem not_sequential :
    ∃ s, Run step (fun _ _ => True) (init gatedConf 0 [] 0) s ∧ ¬ Sequential s.trace := by
  obtain ⟨s, hs, hn⟩ := exists_run_of_replay step (fun _ _ => True) (fun _ _ => true)
    (fun s => s.trace.any leftBehind) (fun _ _ _ => trivial)
    (show replay step _ _ (init gatedConf 0 [] 0) (rejectFirst true) = true by rfl)
  exact ⟨s, hs, not_sequential_of_leftBehind hn⟩

end Libx.Agent
