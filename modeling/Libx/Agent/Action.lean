import Libx.Agent.Effect

/-!
# Libx.Agent.Action — a step as a chain of elementary actions

Whatever a call into the library does is made of a few actions: a callback is entered, an event is
recorded, a round is submitted, a run ends, a Query is released.
-/

namespace Libx.Agent

open State

/-- A change of a Query within its run: its inputs stay, and what is produced is added. -/
structure Within (q q' : Query) : Prop where
  inputs : q'.inputs = q.inputs
  live : q'.live = q.live
  running : q'.running = q.running
  produced : ∃ es, q'.produced = (q.append es).produced

theorem Within.refl (q : Query) : Within q q := ⟨rfl, rfl, rfl, [], by rw [append_nil]⟩

/-- One action of the library. -/
inductive Act (env : InputEnv) (s : State) : State → Prop
  | query (q : Query) : Within s.q q → Act env s { s with q := q }
  | resolvers (rs : List Resolver) : Act env s { s with resolvers := rs }
  | delivered (ds : List ℕ) : Act env s { s with delivered := ds }
  | calls (cs : List Call) : Act env s { s with calls := cs }
  | land (serial : ℕ) : Act env s (s.land serial)
  | window (n : ℕ) : Act env s { s with sess := { s.sess with contextWindow := n } }
  | push (f : Frame) : f ≠ .compactDone → Act env s (s.push f)
  | emit (o : Obs) : (∀ serial run turn limit msgs produced, o ≠ .submitted serial run turn limit msgs produced) →
      Act env s (s.emit o)
  | prepare (msgs : List Message) : viewBuild s.q.inputs s.q.produced = .ok msgs →
      Act env s (s.prepareRound msgs)
  | fly (f : Flight) : Act env s { s with flights := f :: s.flights }
  | ended (reason : DoneReason) : s.q.running = true → Act env s (s.endRun reason env)
  | release : Act env s s.queryRelease
  | finish : Act env s s.sessionFinish

def Acts (env : InputEnv) (s t : State) : Prop := Relation.ReflTransGen (Act env) s t

namespace Acts

variable {env : InputEnv} {s t u : State}

theorem refl (s : State) : Acts env s s := Relation.ReflTransGen.refl

theorem one (h : Act env s t) : Acts env s t := Relation.ReflTransGen.single h

theorem head (h₁ : Act env s t) (h₂ : Acts env t u) : Acts env s u := Relation.ReflTransGen.head h₁ h₂

theorem append (s : State) (es : List Entry) : Act env s { s with q := s.q.append es } := by
  refine .query _ ⟨?_, ?_, ?_, es, rfl⟩
  all_goals rw [append_eq]

theorem setAsync (as : List AsyncTool) (s : State) :
    Act env s { s with q := { s.q with async := as } } :=
  .query _ ⟨rfl, rfl, rfl, [], by rw [append_nil]⟩

theorem finalize (reason : DoneReason) (env : InputEnv) (s : State) :
    Acts env s (s.finalize reason env) := by
  by_cases hr : s.q.running = true
  · rw [finalize_of_running reason env hr]
    exact one (.ended reason hr)
  · have he : s.finalize reason env = s := if_neg hr
    rw [he]
    exact refl s

theorem submitRound {k : SubmitKind} (hk : ∀ rk, k ≠ .run rk) (env : InputEnv) (s : State) :
    Acts env s (s.submitRound k env) := by
  have hfail : ∀ (rc : Errno) (u : State), Acts env u (u.submitFailed k rc) := by
    intro rc u
    have hpush : Acts env u (u.push (.errFinish .modelError)) := one (.push _ (by simp))
    cases k with
    | run rk => exact absurd rfl (hk rk)
    | _ => exact hpush
  unfold State.submitRound
  cases hv : viewBuild s.q.inputs s.q.produced with
  | error rc => exact hfail rc s
  | ok msgs =>
    refine head (.prepare msgs hv) ?_
    dsimp only
    split
    · exact head (.fly _) (one (.push (.submit k) (by simp)))
    · exact hfail _ _

theorem tailCheck {k : SubmitKind} (hk : ∀ rk, k ≠ .run rk) (env : InputEnv) (s : State) :
    Acts env s (s.tailCheck k env) := by
  unfold State.tailCheck
  split
  · split
    · exact finalize _ env s
    · exact submitRound hk env s
  · exact refl s

theorem afterDispatch (env : InputEnv) (s : State) : Acts env s (s.afterDispatch env) := by
  refine head (.query { s.q with pending := [] } ⟨rfl, rfl, rfl, [], by rw [append_nil]⟩) ?_
  unfold State.afterDispatch
  dsimp only
  split
  · exact finalize _ env _
  · split
    · exact refl _
    · exact submitRound (by simp) env _

theorem dispatchFrom (env : InputEnv) : ∀ (cs : List Call) (i : ℕ) (s : State),
    Acts env s (s.dispatchFrom env cs i)
  | [], _, s => afterDispatch env s
  | c :: cs, i, s => by
    unfold State.dispatchFrom
    split
    · exact afterDispatch env s
    · split
      · exact head (append s [unknownToolResult c]) (dispatchFrom env cs (i + 1) _)
      · next t _ =>
        split
        · refine head (.resolvers (s.resolvers ++ [⟨true, c.id, false⟩])) ?_
          refine head (setAsync (s.q.async ++ [⟨t, c, .awaitingConfirm, some s.resolvers.length, 0⟩]) _) ?_
          exact head (.push (.confirm i) (by simp)) (one (.emit (.asked s.resolvers.length c) (by simp)))
        · exact one (.push _ (by simp))

theorem afterInvoke (k : InvokeKind) (env : InputEnv) (s : State) : Acts env s (s.afterInvoke k env) := by
  cases k with
  | dispatch i => exact dispatchFrom env _ _ s
  | allow r => exact tailCheck (by simp) env s

theorem callHandler (k : InvokeKind) (v : Invocation) (s : State) : Acts env s (s.callHandler k v) := by
  refine head (.calls (s.calls ++ [v.call])) ?_
  exact head (.push (.handler k v s.calls.length) (by simp)) (one (.emit _ (by simp)))

theorem handlerReturned (k : InvokeKind) (v : Invocation) (inv : ℕ) (trc : Errno) (out : ToolOut)
    (env : InputEnv) (s : State) : Acts env s (s.handlerReturned k v inv trc out env) := by
  unfold State.handlerReturned
  split
  · exact refl s
  · split
    · refine head (setAsync (s.q.async ++ [⟨v.tool, v.call, .running, none, inv⟩]) s) ?_
      exact afterInvoke k env _
    · exact head (append s _) (one (.push _ (by simp)))

theorem toolConfirmResolve (r : ℕ) (v : Resolver) (d : Decision) (reason : Bytes) (env : InputEnv)
    (s : State) : Acts env s (s.toolConfirmResolve r v d reason env) := by
  unfold State.toolConfirmResolve
  split
  · exact refl s
  refine head (.resolvers (s.resolvers.set r { v with done := true })) ?_
  refine head (.emit (.decided r d) (by simp)) ?_
  dsimp only
  split
  · exact refl _
  split
  · exact refl _
  · next a rest _ =>
    refine head (setAsync rest _) ?_
    cases d with
    | reject => exact head (append _ [rejectedResult a.call.id reason]) (tailCheck (by simp) env _)
    | allow => exact one (.push _ (by simp))

theorem asyncToolComplete (id : Bytes) (out : ToolOut) (s : State) :
    Acts env s (s.asyncToolComplete id out) := by
  unfold State.asyncToolComplete
  split
  · exact refl s
  · next a rest _ =>
    refine head (setAsync rest s) ?_
    exact head (append _ [completionOf a.call out]) (one (.push _ (by simp)))

theorem commitAndBranch (reason : ProviderStop) (userCancel : Bool) (env : InputEnv) (s : State) :
    Acts env s (s.commitAndBranch reason userCancel env) := by
  refine head (append s (assistantTurn s.q)) ?_
  unfold State.commitAndBranch
  dsimp only
  split
  · unfold State.toolLoop
    split
    · exact finalize _ env _
    · exact dispatchFrom env _ _ _
  · exact finalize _ env _

theorem onProviderDone (reason : ProviderStop) (err : Errno) (usage : Option Usage) (seq : ℕ)
    (env : InputEnv) (s : State) : Acts env s (s.onProviderDone reason err usage seq env) := by
  unfold State.onProviderDone
  split
  · exact refl s
  · have hq : Within s.q (usageAccumulate s.q usage seq) := by
      obtain ⟨_, _, _, _, he⟩ := usageAccumulate_frame s.q usage seq
      rw [he]
      exact ⟨rfl, rfl, rfl, [], by rw [append_nil]⟩
    refine head (.query _ hq) ?_
    split
    · exact one (.push _ (by simp))
    · exact commitAndBranch _ _ env _

theorem cancelEnd (k : CancelKind) (s : State) : Acts env s (s.cancelEnd k) := by
  cases k with
  | cancel => exact refl s
  | queryDestroy => exact one .release
  | sessionDestroy => exact head .release (one .finish)

theorem cancelFrom (k : CancelKind) : ∀ (as : List AsyncTool) (i : ℕ) (s : State),
    Acts env s (s.cancelFrom k as i)
  | [], _, s => cancelEnd k s
  | a :: as, i, s => by
    unfold State.cancelFrom
    split
    · exact head (.resolvers (invalidate s.resolvers a.resolver)) (cancelFrom k as (i + 1) _)
    · exact one (.push _ (by simp))

theorem markCancel (k : CancelKind) (s : State) : Acts env s (s.markCancel k) :=
  head (.query { s.q with cancelled := true } ⟨rfl, rfl, rfl, [], by rw [append_nil]⟩)
    (one (.push (.provCancel k) (by simp)))

theorem destroy (k : CancelKind) (s : State) : Acts env s (State.destroy k s) := by
  unfold State.destroy
  split
  · exact markCancel k s
  · exact cancelEnd k s

theorem returnInput (auto : Bool) (rc : Errno) (s : State) : Acts env s (s.returnInput auto rc) := by
  cases auto with
  | true => exact refl s
  | false => exact one (.emit (.inputRet rc) (by simp))

end Acts

/-- What a step is: a message, the creation of a session, or a chain of actions, behind the return of
the callback on top. -/
inductive Moved (s : State) (l : Label) (t : State) : Prop
  | message (s₀ : State) (msg : Message) (auto : Bool) : incoming s l = some (msg, s₀) →
      t = s₀.sessionInput auto msg l.env → Moved s l t
  | created (n : ℕ) : t = createSession n s → Moved s l t
  | acts : Acts l.env s t → Moved s l t
  | returned (f : Frame) (rest : List Frame) : s.stack = f :: rest →
      Acts l.env { s with stack := rest } t → Moved s l t

/-- **A step is made of actions.** -/
theorem acts_of_step {s t : State} {l : Label} (hs : step s l = some t) : Moved s l t := by
  have ht := took_of_step hs
  obtain ⟨m, env⟩ := l
  cases ht with
  | input msg ha => exact .message s msg false rfl rfl
  | cancel _ =>
    refine .acts ?_
    unfold State.sessionCancel
    split
    · exact .markCancel _ s
    · exact .refl s
  | resolve r d reason v _ => exact .acts (.toolConfirmResolve r v d reason env s)
  | complete id out inv => exact .acts (.head (.delivered (inv :: s.delivered)) (.asyncToolComplete id out _))
  | text serial chunk _ =>
    obtain ⟨_, he⟩ := onProviderText_frame s.q chunk
    rw [he]
    exact .acts (.one (.query _ ⟨rfl, rfl, rfl, [], by rw [append_nil]⟩))
  | thinking serial chunk _ =>
    obtain ⟨_, he⟩ := onProviderThinking_frame s.q chunk
    rw [he]
    exact .acts (.one (.query _ ⟨rfl, rfl, rfl, [], by rw [append_nil]⟩))
  | toolCall serial id name args _ =>
    obtain ⟨_, he⟩ := onProviderToolCall_frame s.q id name args
    rw [he]
    exact .acts (.one (.query _ ⟨rfl, rfl, rfl, [], by rw [append_nil]⟩))
  | done serial reason err usage f _ =>
    exact .acts (.head (.land serial) (.head (.emit (.provDone f.run f.turn) (by simp))
      (.onProviderDone reason err usage f.seq env _)))
  | handlerRet trc out k v inv rest hst => exact .returned _ rest hst (.handlerReturned k v inv trc out env _)
  | retSubmit k rest hst =>
    refine .returned _ rest hst ?_
    unfold submitAccepted
    split
    · exact .returnInput _ _ _
    · exact .returnInput _ _ _
    · exact .refl _
  | retConfirm i rest hst => exact .returned _ rest hst (.dispatchFrom env _ _ _)
  | retToolStart k v rest hst => exact .returned _ rest hst (.callHandler k v _)
  | retToolDone k rest hst => exact .returned _ rest hst (.afterInvoke k env _)
  | retCompleteDone rest hst => exact .returned _ rest hst (.tailCheck (by simp) env _)
  | retErrFinish reason rest hst => exact .returned _ rest hst (.finalize reason env _)
  | retProvErr c rest hst => exact .returned _ rest hst (.commitAndBranch _ _ env _)
  | retProvCancel k rest hst _ | retCancelTool i k rest hst _ => exact .returned _ rest hst (.cancelFrom k _ _ _)
  | retSessDone rest hst => exact .returned _ rest hst (.destroy _ _)
  | retCompactDone rest hst _ =>
    unfold State.autoRetryPending
    split
    · exact .returned _ rest hst (.refl _)
    · next txt hp =>
      have hp' : s.sess.pendingText = some txt := hp
      refine .message { s with stack := rest, sess := { s.sess with pendingText := none } }
        ⟨.user, [.text txt]⟩ true ?_ rfl
      simp only [incoming, hst, hp']
  | setContextWindow n _ => exact .acts (.one (.window n))
  | destroy _ _ => exact .acts (.destroy _ s)
  | create n _ => exact .created n rfl

end Libx.Agent
