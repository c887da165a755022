import Libx.Agent.Compact

/-!
# Libx.Agent.Retry — a message launches at most one compact

The retry after a compact re-enters the gate.  It finds a history no longer than the one the compact
was launched on, so the gate's anti-loop guard holds it back from another.
-/

namespace Libx.Agent

open Libx.Core State List

/-! ### Announcements -/

/-- The `CompactDone` callbacks in progress. -/
def dones (s : State) : ℕ := s.stack.count .compactDone

/-- `CompactDone` is announced only when a running compact ends. -/
def Rings (s t : State) : Prop :=
  dones t ≤ dones s ∨ s.q.running = true ∧ s.sess.compacting = true ∧ dones t ≤ dones s + 1 ∧
    t.sess.compacting = false

theorem dones_push {f : Frame} (h : f ≠ .compactDone) (s : State) : dones (s.push f) = dones s :=
  count_cons_of_ne h

namespace Rings

variable {s t u : State} {env : InputEnv}

theorem of_stack (h : t.stack = s.stack) : Rings s t := .inl (by rw [dones, dones, h])

theorem push {f : Frame} (h : f ≠ .compactDone) (s : State) : Rings s (s.push f) :=
  .inl (dones_push h s).le

theorem after (hd : dones t ≤ dones s) (hr : t.q.running = true → s.q.running = true)
    (hc : t.sess.compacting = s.sess.compacting) (h : Rings t u) : Rings s u := by
  rcases h with h | ⟨h1, h2, h3, h4⟩
  · exact .inl (h.trans hd)
  · exact .inr ⟨hr h1, hc ▸ h2, by omega, h4⟩

theorem pop {f : Frame} {rest : List Frame} (hst : s.stack = f :: rest)
    (h : Rings { s with stack := rest } t) : Rings s t := by
  refine after (t := { s with stack := rest }) ?_ id rfl h
  rw [dones, dones, hst]
  exact count_le_count_cons

theorem finalize (reason : DoneReason) (env : InputEnv) (s : State) : Rings s (s.finalize reason env) := by
  unfold State.finalize
  split
  · next hr =>
    unfold State.sessFwdOnDone
    split
    · next hc =>
      refine .inr ⟨hr, hc, ?_, ?_⟩
      swap
      · rfl
      have hst : (State.compactFinished env.summaryOk
          ({ s with q := { s.q with running := false } }.emit (.done s.run reason))).stack =
          .compactDone :: s.stack := by
        unfold State.compactFinished
        split <;> rfl
      rw [dones, dones, hst, count_cons_self]
    · exact .inl (dones_push (f := .sessDone) (by simp) s).le
  · exact of_stack rfl

theorem submitRound {k : SubmitKind} (hk : ∀ rk, k ≠ .run rk) (env : InputEnv) (s : State) :
    Rings s (s.submitRound k env) := by
  have hfail : ∀ (rc : Errno) (u : State), Rings u (u.submitFailed k rc) := by
    intro rc u
    have hpush : Rings u (u.push (.errFinish .modelError)) := push (by simp) u
    cases k with
    | run rk => exact absurd rfl (hk rk)
    | _ => exact hpush
  unfold State.submitRound
  cases viewBuild s.q.inputs s.q.produced with
  | error rc => exact hfail rc s
  | ok msgs =>
    dsimp only
    split
    · exact .inl (dones_push (f := .submit k) (by simp) s).le
    · exact after (t := s.prepareRound msgs) le_rfl id rfl (hfail _ _)

theorem tailCheck {k : SubmitKind} (hk : ∀ rk, k ≠ .run rk) (env : InputEnv) (s : State) :
    Rings s (s.tailCheck k env) := by
  unfold State.tailCheck
  split
  · split
    · exact finalize _ env s
    · exact submitRound hk env s
  · exact of_stack rfl

theorem afterDispatch (env : InputEnv) (s : State) : Rings s (s.afterDispatch env) := by
  refine after (t := { s with q := { s.q with pending := [] } }) le_rfl id rfl ?_
  unfold State.afterDispatch
  dsimp only
  split
  · exact finalize _ env _
  · split
    · exact of_stack rfl
    · exact submitRound (by simp) env _

theorem append (q : Query) (es : List Entry) : (q.append es).running = true → q.running = true := by
  rw [append_eq]
  exact id

theorem dispatchFrom (env : InputEnv) : ∀ (cs : List Call) (i : ℕ) (s : State),
    Rings s (s.dispatchFrom env cs i)
  | [], _, s => afterDispatch env s
  | c :: cs, i, s => by
    unfold State.dispatchFrom
    split
    · exact afterDispatch env s
    · split
      · exact after (t := { s with q := s.q.append [unknownToolResult c] }) le_rfl (append _ _) rfl
          (dispatchFrom env cs (i + 1) _)
      · split
        · exact .inl (dones_push (f := .confirm i) (by simp) s).le
        · exact push (by simp) s

theorem afterInvoke (k : InvokeKind) (env : InputEnv) (s : State) : Rings s (s.afterInvoke k env) := by
  cases k with
  | dispatch i => exact dispatchFrom env _ _ s
  | allow r => exact tailCheck (by simp) env s

theorem handlerReturned (k : InvokeKind) (v : Invocation) (inv : ℕ) (trc : Errno) (out : ToolOut)
    (env : InputEnv) (s : State) : Rings s (s.handlerReturned k v inv trc out env) := by
  unfold State.handlerReturned
  split
  · exact of_stack rfl
  · split
    · exact after (t := { s with q := { s.q with async := s.q.async ++ [⟨v.tool, v.call, .running, none, inv⟩] } })
        le_rfl id rfl (afterInvoke k env _)
    · exact .inl (dones_push (f := .toolDone k) (by simp) s).le

theorem toolConfirmResolve (r : ℕ) (v : Resolver) (d : Decision) (reason : Bytes) (env : InputEnv)
    (s : State) : Rings s (s.toolConfirmResolve r v d reason env) := by
  unfold State.toolConfirmResolve
  split
  · exact of_stack rfl
  dsimp only
  split
  · exact of_stack rfl
  split
  · exact of_stack rfl
  · cases d with
    | reject =>
      refine after ?_ ?_ ?_ (tailCheck (k := .reject) (by simp) env _)
      · exact le_rfl
      · exact append _ _
      · rfl
    | allow => exact .inl (dones_push (by simp) _).le

theorem commitAndBranch (reason : ProviderStop) (userCancel : Bool) (env : InputEnv) (s : State) :
    Rings s (s.commitAndBranch reason userCancel env) := by
  refine after (t := { s with q := commitAssistantTurn s.q }) le_rfl (append _ _) rfl ?_
  unfold State.commitAndBranch
  dsimp only
  split
  · unfold State.toolLoop
    split
    · exact finalize _ env _
    · exact dispatchFrom env _ _ _
  · exact finalize _ env _

theorem onProviderDone (reason : ProviderStop) (err : Errno) (usage : Option Usage) (seq : ℕ)
    (env : InputEnv) (s : State) : Rings s (s.onProviderDone reason err usage seq env) := by
  unfold State.onProviderDone
  split
  · exact of_stack rfl
  · have hrun : (usageAccumulate s.q usage seq).running = true → s.q.running = true := by
      obtain ⟨_, _, _, _, he⟩ := usageAccumulate_frame s.q usage seq
      rw [he]
      exact id
    refine after (t := { s with q := usageAccumulate s.q usage seq }) le_rfl hrun rfl ?_
    split
    · exact push (by simp) _
    · exact commitAndBranch _ _ env _

/-! ### The other operations -/

theorem queryRun (k : RunKind) (msgs : List Message) (env : InputEnv) (s : State) :
    dones (queryRun k msgs env s) = dones s := by
  have hfail : ∀ (rc : Errno) (u : State), dones (runFailed k rc u) = dones u := by
    intro rc u
    cases k with
    | user checkpoint auto | compact auto => cases auto <;> rfl
  unfold State.queryRun
  split
  · unfold State.submitRound
    split
    · exact hfail _ _
    · split
      · exact dones_push (f := .submit (.run k)) (by simp) s
      · exact hfail _ _
  · exact hfail _ _

theorem sessionInput (auto : Bool) (msg : Message) (env : InputEnv) (s : State) :
    dones (s.sessionInput auto msg env) = dones s := by
  have hret : ∀ (rc : Errno) (u : State), dones (returnInput auto rc u) = dones u := by
    intro rc u
    cases auto <;> rfl
  unfold State.sessionInput
  split
  · exact hret _ _
  · split
    · exact hret _ _
    · split
      · exact hret _ _
      · exact queryRun _ _ _ _
    · unfold State.acceptInput
      dsimp only
      split
      · exact hret _ _
      · split
        · exact hret _ _
        · split
          · exact hret _ _
          · exact queryRun _ _ _ _

theorem cancelFrom (k : CancelKind) : ∀ (as : List AsyncTool) (i : ℕ) (s : State),
    dones (s.cancelFrom k as i) = dones s
  | [], _, s => by cases k <;> rfl
  | a :: as, i, s => by
    unfold State.cancelFrom
    split
    · exact cancelFrom k as (i + 1) _
    · exact dones_push (by simp) s

theorem destroy (k : CancelKind) (s : State) : dones (State.destroy k s) = dones s := by
  unfold State.destroy
  split
  · exact dones_push (f := .provCancel k) (by simp) _
  · cases k <;> rfl

end Rings

variable {l : Label}

/-- **One step**: `CompactDone` is announced only when a running compact ends. -/
theorem rings_of_step {s t : State} (hs : step s l = some t) : Rings s t := by
  have ht := took_of_step hs
  obtain ⟨m, env⟩ := l
  cases ht with
  | input msg _ => exact .inl (Rings.sessionInput false msg env s).le
  | cancel _ =>
    unfold State.sessionCancel
    split
    · exact .inl (dones_push (f := .provCancel .cancel) (by simp) _).le
    · exact .of_stack rfl
  | resolve r d reason v _ => exact .toolConfirmResolve r v d reason env s
  | complete id out inv =>
    unfold State.asyncToolComplete
    split
    · exact .of_stack rfl
    · exact .inl (dones_push (f := .completeDone) (by simp) _).le
  | done serial reason err usage f _ =>
    exact .after (t := (s.land serial).emit (.provDone f.run f.turn)) le_rfl id rfl
      (.onProviderDone reason err usage f.seq env _)
  | handlerRet trc out k v inv rest hst => exact .pop hst (.handlerReturned k v inv trc out env _)
  | retSubmit k rest hst =>
    refine .pop hst (.of_stack ?_)
    unfold submitAccepted
    split <;> rfl
  | retConfirm i rest hst => exact .pop hst (.dispatchFrom env _ _ _)
  | retToolStart k v rest hst =>
    exact .pop hst (.inl (dones_push (f := .handler k v s.calls.length) (by simp) { s with stack := rest }).le)
  | retToolDone k rest hst => exact .pop hst (.afterInvoke k env _)
  | retCompleteDone rest hst => exact .pop hst (.tailCheck (by simp) env _)
  | retErrFinish reason rest hst => exact .pop hst (.finalize reason env _)
  | retProvErr userCancel rest hst => exact .pop hst (.commitAndBranch _ _ env _)
  | retProvCancel k rest hst _ | retCancelTool i k rest hst _ => exact .pop hst (.inl (Rings.cancelFrom k _ _ _).le)
  | retSessDone rest hst => exact .pop hst (.inl (Rings.destroy _ _).le)
  | retCompactDone rest hst _ =>
    refine .pop hst (.inl ?_)
    unfold State.autoRetryPending
    split
    · exact le_rfl
    · exact (Rings.sessionInput true _ env _).le
  | destroy _ _ => exact .inl (Rings.destroy _ s).le
  | _ => exact .of_stack rfl

/-- The message a step hands on comes from outside, or the announcement that leads to the retry is
over. -/
theorem dones_of_incoming {s t s₀ : State} {msg : Message} (hs : step s l = some t)
    (hi : incoming s l = some (msg, s₀)) :
    (∃ m, l.move = .input m) ∧ dones t = dones s ∨ l.move = .ret ∧ dones t + 1 = dones s := by
  obtain ⟨m, env⟩ := l
  cases took_of_step hs with
  | input m _ => exact .inl ⟨⟨m, rfl⟩, Rings.sessionInput false m env s⟩
  | retCompactDone rest hst _ =>
    refine .inr ⟨rfl, ?_⟩
    have hd : dones s = dones ({ s with stack := rest } : State) + 1 := by
      rw [dones, dones, hst, count_cons_self]
    rw [hd]
    unfold State.autoRetryPending
    split
    · rfl
    · exact congrArg (· + 1) (Rings.sessionInput true _ env _)
  | retSubmit _ _ hst | retConfirm _ _ hst | retToolStart _ _ _ hst | retToolDone _ _ hst | retCompleteDone _ hst
  | retErrFinish _ _ hst | retProvErr _ _ hst | retProvCancel _ _ hst _ | retCancelTool _ _ _ hst _
  | retSessDone _ hst => simp [incoming, hst] at hi
  | _ => simp [incoming] at hi

/-! ### The guard -/

/-- **The anti-loop guard**: on a history no longer than the one it recorded the gate launches
nothing. -/
theorem gate_guarded {conf : Conf} {cs : List Content} {env : InputEnv} {x : Session}
    (h1 : 0 < x.lastCompactHistoryLen) (h2 : x.history.length ≤ x.lastCompactHistoryLen) (y : Session)
    (msgs : List Message) : sessionEnforceBudget conf cs env x ≠ .launch y msgs := by
  intro h
  have hlen : (sessionTrim env.trimOk x).history.length = x.history.length := by
    unfold sessionTrim
    split_ifs
    · exact length_map _
    · rfl
  have hlast := sessionTrim_lastCompact env.trimOk x
  have hbranch : ∀ z : Session, z.history.length = x.history.length →
      z.lastCompactHistoryLen = x.lastCompactHistoryLen → summarizeBranch conf cs env z ≠ .launch y msgs := by
    intro z hz hl h
    unfold summarizeBranch at h
    split at h
    · injection h
    split at h
    · injection h
    split at h
    · injection h
    · rw [if_pos ⟨by omega, by omega⟩] at h
      injection h
  unfold sessionEnforceBudget at h
  dsimp only at h
  split at h
  · injection h
  split at h
  · injection h
  split at h
  · injection h
  split at h
  · injection h
  · exact hbranch _ hlen hlast h
  · injection h

/-- The guard is set while the end of a compact is announced. -/
structure Guarded (s : State) : Prop where
  life : Life s
  ranged : Ranged s
  once : dones s ≤ 1
  guard : 0 < dones s → s.q.running = false ∧ s.sess.compacting = false ∧
    0 < s.sess.lastCompactHistoryLen ∧ s.sess.history.length ≤ s.sess.lastCompactHistoryLen

theorem endRun_running (reason : DoneReason) (env : InputEnv) (s : State) :
    (s.endRun reason env).q.running = false := by
  rcases endRun_query reason env s with h | h
  · rw [h]
  · rw [h]

theorem endRun_guard {reason : DoneReason} {env : InputEnv} {u : State} (hc : u.sess.compacting = true)
    (hm : Marked u.conf u.sess) :
    0 < (u.endRun reason env).sess.lastCompactHistoryLen ∧
      (u.endRun reason env).sess.history.length ≤ (u.endRun reason env).sess.lastCompactHistoryLen := by
  obtain ⟨h1, h2⟩ := hm.lt
  have hlast : (u.endRun reason env).sess.lastCompactHistoryLen = u.sess.lastCompactHistoryLen := by
    have he : (u.endRun reason env).sess = (u.endRun reason env).ledger.sess := rfl
    rw [he]
    rcases endRun_ledger reason env u with ⟨-, z, -, -, hl⟩ | ⟨-, hl⟩ | ⟨hno, -⟩
    · rw [hl]
      rfl
    · rw [hl]
      rfl
    · rw [hc] at hno
      exact absurd hno (by simp)
  rw [hlast, hm.length]
  refine ⟨by omega, ?_⟩
  obtain ⟨hsp, hsame⟩ := endRun_history reason env hc hm
  by_cases hok : summaryBytes u.q.produced ≠ [] ∧ env.summaryOk = true
  · obtain ⟨z, -, he⟩ := hsp hok
    rw [he, Flushed.splice, length_append, length_cons, length_take, length_drop]
    omega
  · rw [hsame hok]

/-- **One step** keeps the guard, when the host calls Input from no callback. -/
theorem Guarded.step {s t : State} (h : Guarded s) (hone : oneSession l = true)
    (hout : ∀ m, l.move = .input m → s.stack = []) (hs : step s l = some t) : Guarded t := by
  have hring := rings_of_step hs
  have hlife := h.life.step hs
  have hrange := h.ranged.step hs
  -- a step that announces nothing new and leaves the session and a run that is over alone
  have hkeep : dones t ≤ dones s → t.sess.compacting = s.sess.compacting →
      t.sess.lastCompactHistoryLen = s.sess.lastCompactHistoryLen →
      t.sess.history.length = s.sess.history.length → (t.q.running = true → s.q.running = true) →
      Guarded t := by
    intro hd hc hl hh hr
    refine ⟨hlife, hrange, hd.trans h.once, fun hpos => ?_⟩
    obtain ⟨h1, h2, h3, h4⟩ := h.guard (by omega)
    refine ⟨?_, by rw [hc]; exact h2, by omega, by omega⟩
    by_contra hrun
    have := hr (by simpa using hrun)
    rw [h1] at this
    exact absurd this (by simp)
  have hquiet : t.sess.compacting = s.sess.compacting → dones t ≤ dones s := by
    intro hc
    rcases hring with hd | ⟨-, h2, -, h4⟩
    · exact hd
    · rw [hc, h2] at h4
      exact absurd h4 (by simp)
  cases effect_of_step hs with
  | settles hset =>
    cases hset with
    | quiet hq =>
      have hsess := hq.sess
      exact hkeep (hquiet (by rw [hsess])) (by rw [hsess]) (by rw [hsess]) (by rw [hsess])
        (fun hr => (hq.running hr).1)
    | @ended u reason hq hr =>
      have hsr := (hq.running hr).1
      have hzero : dones s = 0 := by
        by_contra hne
        have := (h.guard (by omega)).1
        rw [hsr] at this
        exact absurd this (by simp)
      have halive : s.alive = true := by
        by_contra hd
        have := h.life.dead (by simpa using hd)
        rw [hsr] at this
        exact absurd this (by simp)
      refine ⟨hlife, hrange, ?_, fun hpos => ⟨endRun_running _ _ _, endRun_compacting _ _ _, ?_⟩⟩
      · rcases hring with hd | ⟨-, -, hd, -⟩
        · omega
        · omega
      · rcases hring with hd | ⟨-, hc, -, -⟩
        · omega
        · have huc : u.sess.compacting = true := by rw [hq.sess]; exact hc
          refine endRun_guard huc ?_
          rw [hq.sess, hq.conf]
          exact h.ranged halive hc
    | @finished u hq _ hq0 =>
      have hsess := hq.sess
      refine hkeep (hquiet ?_) ?_ ?_ ?_ (fun hr => ?_)
      · exact congrArg Session.compacting hsess
      · exact congrArg Session.compacting hsess
      · exact congrArg Session.lastCompactHistoryLen hsess
      · exact congrArg (fun x => x.history.length) hsess
      · have hr : u.q.running = true := hr
        rw [hq0] at hr
        exact absurd hr (by simp)
  | received msg _ hi _ =>
    have hzero : dones t = 0 := by
      rcases dones_of_incoming hs hi with ⟨⟨m, hm⟩, hd⟩ | ⟨-, hd⟩
      · rw [hd, dones, hout m hm]
        rfl
      · have := h.once
        omega
    exact ⟨hlife, hrange, by omega, fun hpos => by omega⟩
  | window n => exact hkeep (hquiet rfl) rfl rfl rfl id
  | create n hm _ => exact absurd hone (by simp [oneSession, hm])

/-! ### What a message comes to -/

/-- What `xAgentSessionInput` did: it refused the message with a code, it submitted the first round of a
user run, or it launched a compact. -/
inductive Answer (auto : Bool) (s : State) : State → Prop
  | refused (u : State) (rc : Errno) : rc ≠ .ok → u.flights = s.flights → (u.q = s.q ∨ u.q = {}) →
      u.sess.compacting = s.sess.compacting → Answer auto s (u.returnInput auto rc)
  | submitted {t : State} (f : Flight) : t.flights = f :: s.flights → f.run = s.run + 1 → f.turn = 1 →
      t.q.running = true → t.q.user = true → t.sess.compacting = false → Answer auto s t
  | launched {t : State} (f : Flight) : t.flights = f :: s.flights → f.run = s.run + 1 → f.turn = 1 →
      t.q.running = true → t.q.user = false → t.sess.compacting = true → Answer auto s t

theorem gate_refuse_rc {conf : Conf} {cs : List Content} {env : InputEnv} {x y : Session} {rc : Errno}
    (h : sessionEnforceBudget conf cs env x = .refuse rc y) : rc ≠ .ok := by
  have hbranch : ∀ z : Session, summarizeBranch conf cs env z = .refuse rc y → rc ≠ .ok := by
    intro z h
    unfold summarizeBranch at h
    dsimp only at h
    split at h
    · injection h with h; rw [← h]; decide
    split at h
    · injection h with h; rw [← h]; decide
    split at h
    · injection h with h; rw [← h]; decide
    split at h
    · injection h with h; rw [← h]; decide
    split at h
    · injection h with h; rw [← h]; decide
    split at h
    · injection h with h; rw [← h]; decide
    split at h
    · injection h with h; rw [← h]; decide
    · injection h
  unfold sessionEnforceBudget at h
  dsimp only at h
  split at h
  · injection h
  split at h
  · injection h
  split at h
  · injection h
  split at h
  · injection h with h; rw [← h]; decide
  · exact hbranch _ h
  · injection h with h; rw [← h]; decide

theorem view_error {conf : Conf} {memText : Option Bytes} {hist : List Slot} {viewOk : Bool} {rc : Errno}
    (h : sessInputViewBuild conf memText hist viewOk = .error rc) : rc ≠ .ok := by
  have hall : ∀ all : List Message, (if all = [] then Except.error Errno.invalidArg
      else if !viewOk then .error .noMemory else .ok all) = .error rc → rc ≠ .ok := by
    intro all ha
    split_ifs at ha
    all_goals injection ha with ha; rw [← ha]; decide
  exact hall _ h

/-- **A run is started or refused.** -/
theorem queryRun_answer (auto user : Bool) (maxTurns : ℤ) (k : RunKind) {msgs : List Message}
    (env : InputEnv) (s u : State) (hf : u.flights = s.flights) (hr : u.run = s.run)
    (hk : user = true ∧ (∃ c, k = .user c auto) ∧ u.sess.compacting = false ∧ s.sess.compacting = false ∨
      user = false ∧ k = .compact auto ∧ u.sess.compacting = true ∧ s.sess.compacting = false) :
    Answer auto s (queryRun k msgs env (create user maxTurns u)) := by
  have hfail : ∀ (rc : Errno) (v : State), rc ≠ .ok → v.flights = s.flights →
      v.sess.compacting = u.sess.compacting → Answer auto s (runFailed k rc v) := by
    intro rc v hrc hvf hvc
    rcases hk with ⟨-, ⟨c, rfl⟩, hu, hs⟩ | ⟨-, rfl, hu, hs⟩
    · refine .refused _ rc hrc hvf (.inr rfl) ?_
      rw [hs, ← hu, ← hvc]
      rfl
    · exact .refused _ .promptTooLong (by decide) hvf (.inr rfl) hs.symm
  have hview : ∀ rc, viewBuild (turnBufAppend msgs) (create user maxTurns u).q.produced = .error rc →
      rc ≠ .ok := by
    intro rc h
    unfold viewBuild at h
    split_ifs at h
    injection h with h
    rw [← h]
    decide
  unfold State.queryRun
  split
  · unfold State.submitRound
    split
    · next rc hv => exact hfail rc _ (hview rc hv) hf rfl
    · next ms hv =>
      split
      · have hrun : u.run + 1 = s.run + 1 := by rw [hr]
        rcases hk with ⟨hu, -, hc, -⟩ | ⟨hu, -, hc, -⟩
        · exact .submitted _ (congrArg (_ :: ·) hf) hrun rfl rfl hu hc
        · exact .launched _ (congrArg (_ :: ·) hf) hrun rfl rfl hu hc
      · next hrc => exact hfail _ _ hrc hf rfl
  · exact hfail _ _ (by decide) hf rfl

/-- **Every message is answered.** -/
theorem sessionInput_answer (auto : Bool) (msg : Message) (env : InputEnv) (s : State) :
    Answer auto s (s.sessionInput auto msg env) := by
  unfold State.sessionInput
  split
  · exact .refused s .busy (by decide) rfl (.inl rfl) rfl
  next hb =>
  simp only [Bool.or_eq_true, not_or, Bool.not_eq_true] at hb
  have hcomp : ∀ {x : Session}, Gated s msg.contents env x → x.compacting = s.sess.compacting :=
    fun hg => hg.compacting
  have hgate := gate_session s.conf msg.contents env s.sess
  split
  · next rc x hg =>
    rw [hg] at hgate
    exact .refused { s with sess := x } rc (gate_refuse_rc hg) rfl (.inl rfl) (hcomp hgate)
  · next x msgs hg =>
    rw [hg] at hgate
    split
    · exact .refused { s with sess := x } .noMemory (by decide) rfl (.inl rfl) (hcomp hgate)
    · exact queryRun_answer auto false 1 (.compact auto) env s { s with sess := { x with compacting := true } }
        rfl rfl (.inr ⟨rfl, rfl, rfl, hb.2⟩)
  · next x hg =>
    rw [hg] at hgate
    have hsame : x.compacting = s.sess.compacting := hcomp hgate
    have hx : x.compacting = false := hsame.trans hb.2
    unfold State.acceptInput
    dsimp only
    split
    · exact .refused { s with sess := x } .noMemory (by decide) rfl (.inl rfl) hsame
    · split
      · next rc hv => exact .refused _ rc (view_error hv) rfl (.inl rfl) hsame
      · split
        · exact .refused _ .noMemory (by decide) rfl (.inl rfl) hsame
        · exact queryRun_answer auto true s.conf.maxTurns (.user x.history.length auto) env s _ rfl rfl
            (.inl ⟨rfl, ⟨_, rfl⟩, hx, hb.2⟩)

/-! ### Chains -/

def launches (s t : State) : ℕ := if s.sess.compacting = false ∧ t.sess.compacting = true then 1 else 0

def Move.isInput : Move → Bool
  | .input _ => true
  | _ => false

/-- A step, with the compacts launched since the last message from outside. -/
def chainStep (p : State × ℕ) (l : Label) : Option (State × ℕ) :=
  (step p.1 l).map (fun t => (t, (if l.move.isInput then 0 else p.2) + launches p.1 t))

/-- One session, whose host calls Input from no callback. -/
def fromOutside (p : State × ℕ) (l : Label) : Bool :=
  oneSession l && (!l.move.isInput || p.1.stack.isEmpty)

theorem launches_le (s t : State) : launches s t ≤ 1 := by
  unfold launches
  split_ifs <;> omega

/-- **The retry launches nothing**, and nothing else does but a message from outside. -/
theorem Guarded.launches_eq {s t : State} (h : Guarded s) (hone : oneSession l = true)
    (hno : ∀ m, l.move ≠ .input m) (hs : Libx.Agent.step s l = some t) : launches s t = 0 := by
  unfold launches
  rw [if_neg]
  rintro ⟨hsc, htc⟩
  cases effect_of_step hs with
  | settles hset =>
    cases hset with
    | quiet hq =>
      rw [hq.sess, hsc] at htc
      exact absurd htc (by simp)
    | ended reason _ _ =>
      rw [endRun_compacting] at htc
      exact absurd htc (by simp)
    | finished hq _ _ =>
      have hc := congrArg Session.compacting hq.sess
      have htc : _ = true := hc.symm.trans htc
      rw [hsc] at htc
      exact absurd htc (by simp)
  | @received _ s₀ msg halive hi hr =>
    obtain ⟨hl0, -, -, -⟩ := incoming_same hi
    have hsess : s₀.sess = { s.sess with pendingText := s₀.sess.pendingText } := congrArg Ledger.sess hl0
    have hpos : 0 < dones s := by
      rcases dones_of_incoming hs hi with ⟨⟨m, hm⟩, -⟩ | ⟨-, hd⟩
      · exact absurd hm (hno m)
      · omega
    obtain ⟨-, -, hg1, hg2⟩ := h.guard hpos
    have hsc0 : s₀.sess.compacting = false := by
      rw [hsess]
      exact hsc
    cases hr with
    | kept x hg _ hl _ | withdrawn x o hg _ _ hl _ _ | accepted x o hg _ _ _ hl _ =>
      have hc : t.sess.compacting = x.compacting := congrArg (fun l => l.sess.compacting) hl
      rw [hc, hg.compacting, hsc0] at htc
      exact absurd htc (by simp)
    | launched x msgs _ _ hgate _ _ _ _ =>
      refine gate_guarded ?_ ?_ x msgs hgate
      · rw [hsess]
        exact hg1
      · rw [hsess]
        exact hg2
  | window n =>
    rw [hsc] at htc
    exact absurd htc (by simp)
  | create n hm _ => exact absurd hone (by simp [oneSession, hm])

theorem guarded_init (conf : Conf) (contextWindow : ℕ) (store : List Slot) (nextUid : ℕ) :
    Guarded (init conf contextWindow store nextUid) :=
  ⟨Life.init _ _ _ _, fun _ hc => absurd hc (by simp [init, createSession]), Nat.zero_le _,
    fun hpos => absurd hpos (by decide : ¬ 0 < 0)⟩

/-- What the retry comes to: a refusal or a user run. -/
def RetryEnds (s t : State) : Prop :=
  ∃ s', Answer true s' t ∧ s'.q = s.q ∧ s'.flights = s.flights ∧ s'.run = s.run ∧
    s'.sess.compacting = s.sess.compacting ∧ launches s t = 0

/-- The guard, and at most one compact. -/
structure Chained (p : State × ℕ) : Prop where
  guarded : Guarded p.1
  count : p.2 ≤ 1

theorem Chained.step {p p' : State × ℕ} (h : Chained p) (hok : fromOutside p l = true)
    (hs : chainStep p l = some p') : Chained p' := by
  unfold fromOutside at hok
  rw [Bool.and_eq_true] at hok
  obtain ⟨t, ht, rfl⟩ := Option.map_eq_some_iff.mp hs
  refine ⟨h.guarded.step hok.1 (fun m hm => ?_) ht, ?_⟩
  · simpa [hm, Move.isInput] using hok.2
  · have hle := launches_le p.1 t
    have hcount := h.count
    cases hin : l.move.isInput with
    | true =>
      rw [if_pos rfl]
      omega
    | false =>
      have hzero := h.guarded.launches_eq hok.1 (fun m hm => by simp [hm, Move.isInput] at hin) ht
      rw [if_neg (by simp)]
      omega

/-- **Compaction cannot loop**: since the last message from outside at most one compact was launched;
such a message is refused, starts a user run or launches the compact, and the retry behind a compact
is refused or starts a user run. -/
theorem compactOnce_of_run {conf : Conf} {contextWindow nextUid : ℕ} {store : List Slot} {s : State}
    {n : ℕ} (h : Run chainStep (fun p l => fromOutside p l = true)
      (init conf contextWindow store nextUid, 0) (s, n)) :
    n ≤ 1 ∧
    (∀ msg env t, step s ⟨.input msg, env⟩ = some t → Answer false s t) ∧
    (∀ env t rest p, s.stack = .compactDone :: rest → s.sess.pendingText = some p →
      step s ⟨.ret, env⟩ = some t → RetryEnds s t) := by
  have hc : Chained (s, n) :=
    h.preserves (fun _ _ _ hi hok hs => hi.step hok hs) ⟨guarded_init _ _ _ _, Nat.zero_le _⟩
  have hg : Guarded s := hc.guarded
  refine ⟨hc.count, fun msg env t hs => ?_, fun env t rest p hst hp hs => ?_⟩
  · cases took_of_step hs with
    | input _ _ => exact sessionInput_answer false msg env s
  · have hzero := hg.launches_eq (l := ⟨.ret, env⟩) rfl (by simp) hs
    refine ⟨{ s with stack := rest, sess := { s.sess with pendingText := none } }, ?_, rfl, rfl, rfl, rfl,
      hzero⟩
    unfold step at hs
    rw [hst] at hs
    rw [Option.ite_none_right_eq_some] at hs
    obtain ⟨-, hs⟩ := hs
    injection hs with hs
    rw [← hs]
    unfold State.autoRetryPending
    rw [hp]
    exact sessionInput_answer true _ env _

/-- A compact launched by the second message, up to its retry, which is waiting to be made. -/
def compactOnce : List Label :=
  [⟨.input hello, {}⟩, ⟨.ret, {}⟩, ⟨.text 0 (bytes "a"), {}⟩, ⟨.done 0 .endTurn .ok none, {}⟩, ⟨.ret, {}⟩,
    ⟨.input hello, {}⟩, ⟨.ret, {}⟩, ⟨.text 1 (bytes "s"), {}⟩, ⟨.done 1 .endTurn .ok none, {}⟩]

/-- A chain with one compact, and its retry. -/
theorem compactOnce_of_run_retry :
    ∃ s t, Run chainStep (fun p l => fromOutside p l = true) (init (storeConf 0) 20 [] 0, 0) (s, 1) ∧
      step s ⟨.ret, {}⟩ = some t ∧ RetryEnds s t := by
  obtain ⟨⟨s, n⟩, hs, hn⟩ := exists_run_of_replay chainStep (fun p l => fromOutside p l = true) fromOutside
    (fun p => p.2 = 1 && p.1.stack = [.compactDone] && p.1.sess.pendingText = some (bytes "hi") && p.1.alive)
    (fun _ _ h => h)
    (show replay chainStep fromOutside _ (init (storeConf 0) 20 [] 0, 0) compactOnce = true by rfl)
  simp only [Bool.and_eq_true, decide_eq_true_eq] at hn
  obtain ⟨⟨⟨hone, hst⟩, hpend⟩, halive⟩ := hn
  subst hone
  have hstep : step s ⟨.ret, {}⟩ = some (State.autoRetryPending {} { s with stack := [] }) := by
    unfold step
    rw [hst]
    exact if_pos halive
  exact ⟨s, _, hs, hstep, (compactOnce_of_run hs).2.2 {} _ [] _ hst hpend hstep⟩

end Libx.Agent
