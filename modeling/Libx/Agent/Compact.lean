import Libx.Core.Turns
import Libx.Agent.Persist
import Libx.Agent.Prompt

/-!
# Libx.Agent.Compact — what a compact leaves of the history

The range of a compact is computed when it is launched and used when its Query ends; nothing touches
the history in between.
-/

namespace Libx.Agent

open Libx.Core State List

/-! ### The head and the tail -/

def Entry.isUser (e : Entry) : Bool := e.role = .user

theorem findUserTurn_eq : ∀ {es : List Entry} {k i : ℕ}, findUserTurn es k = some i →
    i = (beforeNth Entry.isUser k es).length
  | [], _, _, h => by simp [findUserTurn] at h
  | e :: es, k, i, h => by
    unfold findUserTurn at h
    split_ifs at h with he
    · have hu : e.isUser = true := by simp [Entry.isUser, he]
      cases k with
      | zero =>
        injection h with h
        simp [beforeNth, hu, ← h]
      | succ k =>
        obtain ⟨j, hj, rfl⟩ := Option.map_eq_some_iff.mp h
        have hk := findUserTurn_eq hj
        rw [beforeNth, if_pos hu, length_cons, hk]
    · have hu : e.isUser = false := by simp [Entry.isUser, he]
      obtain ⟨j, hj, rfl⟩ := Option.map_eq_some_iff.mp h
      have hk := findUserTurn_eq hj
      cases k with
      | zero | succ k => rw [beforeNth, if_neg (by simp [hu]), length_cons, hk]

/-- Everything before the `context_preserve_head_turns`-th user turn. -/
def headOf (conf : Conf) (es : List Entry) : List Entry :=
  beforeNth Entry.isUser conf.headTurns.toNat es

/-- Everything from the `(user_count - context_preserve_tail_turns)`-th user turn on. -/
def tailOf (conf : Conf) (es : List Entry) : List Entry :=
  if conf.tailTurns = 0 then []
  else fromNth Entry.isUser (UInt64.ofNat (userCount es) - conf.tailTurns).toNat es

variable {conf : Conf} {x : Session}

theorem compactRange_parts {start stop : ℕ}
    (h : compactRange conf x = some (start, stop)) :
    (entries x.history).take start = headOf conf (entries x.history) ∧
      (entries x.history).drop stop = tailOf conf (entries x.history) := by
  unfold compactRange at h
  dsimp only at h
  split at h
  · next i j hstart hstop =>
    split_ifs at h with hlt
    injection h with h
    injection h with h1 h2
    subst h1 h2
    refine ⟨?_, ?_⟩
    · rw [findUserTurn_eq hstart, take_beforeNth]
      rfl
    · unfold tailOf
      split_ifs at hstop ⊢ with htail
      · injection hstop with hstop
        rw [← hstop, drop_length]
      · rw [findUserTurn_eq hstop]
        rfl
  · exact absurd h (by simp)

/-! ### The range of a compact under way -/

/-- What the gate records when it launches a compact. -/
structure Marked (conf : Conf) (x : Session) : Prop where
  range : compactRange conf x = some (x.compactStart, x.compactEnd)
  length : x.lastCompactHistoryLen = x.history.length

theorem Marked.lt (h : Marked conf x) :
    x.compactStart < x.compactEnd ∧ x.compactEnd ≤ x.history.length :=
  compactRange_bounds h.range

theorem Marked.of_eq {y : Session} (h : Marked conf x) (hh : y.history = x.history)
    (h1 : y.compactStart = x.compactStart) (h2 : y.compactEnd = x.compactEnd)
    (h3 : y.lastCompactHistoryLen = x.lastCompactHistoryLen) : Marked conf y := by
  have hr : compactRange conf y = compactRange conf x := by
    unfold compactRange userTurns
    rw [hh]
  exact ⟨by rw [hr, h1, h2, h.range], by rw [h3, hh, h.length]⟩

theorem summarizeBranch_marked {cs : List Content} {env : InputEnv} {y : Session}
    {msgs : List Message} (h : summarizeBranch conf cs env x = .launch y msgs) : Marked conf y := by
  unfold summarizeBranch at h
  dsimp only at h
  split at h
  · injection h
  split at h
  · injection h
  split at h
  · injection h
  next start stop hr =>
    split at h
    · injection h
    split at h
    · injection h
    split at h
    · injection h
    split at h
    · injection h
    injection h with h _
    subst h
    have hm : Marked conf (markCompact start stop x) := ⟨hr, rfl⟩
    have hsave : ∀ ok : Bool, (savePending ok cs x).history = x.history := by
      intro ok
      unfold savePending
      split_ifs <;> rfl
    exact hm.of_eq (hsave _) rfl rfl (congrArg List.length (hsave _))

/-- **The gate launches a compact** on a range of the history it leaves. -/
theorem gate_marked {cs : List Content} {env : InputEnv} {y : Session}
    {msgs : List Message} (h : sessionEnforceBudget conf cs env x = .launch y msgs) : Marked conf y := by
  unfold sessionEnforceBudget at h
  dsimp only at h
  split at h
  · injection h
  split at h
  · injection h
  split at h
  · injection h
  split at h
  · injection h
  · exact summarizeBranch_marked h
  · injection h

/-- The range of the compact under way is that of the history as it is. -/
def Ranged (s : State) : Prop :=
  s.alive = true → s.sess.compacting = true → Marked s.conf s.sess

theorem endRun_compacting (reason : DoneReason) (env : InputEnv) (s : State) :
    (s.endRun reason env).sess.compacting = false := by
  have he : (s.endRun reason env).sess = (s.endRun reason env).ledger.sess := rfl
  rw [he]
  rcases endRun_ledger reason env s with ⟨-, z, -, -, hl⟩ | ⟨-, hl⟩ | ⟨hu, hl⟩
  · rw [hl]
    rfl
  · rw [hl]
    rfl
  · rw [hl]
    exact hu

variable {s t : State} {l : Label}

/-- **While a compact is under way nothing but a new window and the retry's text touches the
session**; a step that launches one records its range. -/
theorem compacting_step (hs : step s l = some t) (ha : t.alive = true)
    (hc : t.sess.compacting = true) :
    t.conf = s.conf ∧ s.alive = true ∧
      (s.sess.compacting = false ∧ Marked t.conf t.sess ∨
        s.sess.compacting = true ∧
          ∃ n p, t.sess = { s.sess with contextWindow := n, pendingText := p }) := by
  cases effect_of_step hs with
  | settles hset =>
    cases hset with
    | quiet hq =>
      rw [hq.alive] at ha
      rw [hq.sess] at hc
      exact ⟨hq.conf, ha, .inr ⟨hc, s.sess.contextWindow, s.sess.pendingText, hq.sess⟩⟩
    | ended reason hq hr =>
      rw [endRun_compacting] at hc
      exact absurd hc (by simp)
    | finished _ _ _ => exact absurd ha (by simp [State.sessionFinish])
  | @received _ s₀ msg halive hi hr =>
    obtain ⟨hl0, -, -, -⟩ := incoming_same hi
    have hconf : s₀.conf = s.conf := congrArg Ledger.conf hl0
    have hsess : s₀.sess = { s.sess with pendingText := s₀.sess.pendingText } := congrArg Ledger.sess hl0
    have hnot : s₀.busy = false → ∀ x, Gated s₀ msg.contents l.env x → x.compacting = false := by
      intro hb x hg
      rw [hg.compacting]
      exact (Bool.or_eq_false_iff.mp hb).2
    cases hr with
    | kept x hg hbusy hl _ =>
      have hx : t.sess = x := congrArg Ledger.sess hl
      have htc : t.conf = s₀.conf := congrArg Ledger.conf hl
      have hb : s₀.busy = true := by
        by_contra hb
        rw [hx, hnot (by simpa using hb) x hg] at hc
        exact absurd hc (by simp)
      rw [hx, hbusy hb, hsess] at hc
      refine ⟨htc.trans hconf, halive, .inr ⟨hc, s.sess.contextWindow, s₀.sess.pendingText, ?_⟩⟩
      rw [hx, hbusy hb]
      exact hsess
    | launched x msgs hg hb hgate h1 h2 hl _ =>
      have hx : t.sess = { x with compacting := true } := congrArg Ledger.sess hl
      have htc : t.conf = s₀.conf := congrArg Ledger.conf hl
      refine ⟨htc.trans hconf, halive, .inl ⟨?_, ?_⟩⟩
      · have hcomp := (Bool.or_eq_false_iff.mp hb).2
        rw [hsess] at hcomp
        exact hcomp
      · rw [hx, htc]
        exact (gate_marked hgate).of_eq rfl rfl rfl rfl
    | withdrawn x o hg _ _ hl hb _ | accepted x o hg hb _ _ hl _ =>
      have hx : t.sess.compacting = x.compacting := congrArg (fun l => l.sess.compacting) hl
      rw [hx, hnot hb x hg] at hc
      exact absurd hc (by simp)
  | window n => exact ⟨rfl, ha, .inr ⟨hc, n, s.sess.pendingText, rfl⟩⟩
  | create n _ _ => exact absurd hc (by simp [createSession])

theorem Ranged.step (h : Ranged s) (hs : step s l = some t) : Ranged t := by
  intro ha hc
  obtain ⟨hconf, hsa, ⟨-, hm⟩ | ⟨hsc, n, p, he⟩⟩ := compacting_step hs ha hc
  · exact hm
  · rw [hconf]
    exact (h hsa hsc).of_eq (by rw [he]) (by rw [he]) (by rw [he]) (by rw [he])

theorem ranged_of_run {contextWindow nextUid : ℕ} {store : List Slot}
    {ok : State → Label → Prop} (h : Run step ok (init conf contextWindow store nextUid) s) : Ranged s :=
  h.preserves (fun _ _ _ hi _ hs => hi.step hs) (fun _ hc => absurd hc (by simp [init, createSession]))

/-! ### The end of a compact -/

/-- The end of the run commits the Assistant turn. -/
def commits (s : State) (l : Label) : Bool :=
  match l.move with
  | .done _ _ _ _ => true
  | .ret =>
    match s.stack with
    | .provErr _ :: _ => true
    | _ => false
  | _ => false

def completes (s : State) (l : Label) : Bool :=
  match l.move with
  | .done _ reason _ _ => !s.q.cancelled && (reason = .endTurn || reason = .maxTokens)
  | .ret =>
    match s.stack with
    | .errFinish reason :: _ => reason = .completed
    | _ => false
  | _ => false

def said (s : State) (l : Label) : Bytes :=
  summaryBytes (if commits s l then (commitAssistantTurn s.q).produced else s.q.produced)

def usable (s : State) (l : Label) : Bool := said s l ≠ [] && l.env.summaryOk

theorem summaryBytes_result {es : List Entry} {e : Entry} {id : Bytes} (h : e.resultId = some id) :
    summaryBytes (es ++ [e]) = summaryBytes es := by
  have ht : textPayload e = [] := by
    cases e with
    | toolResult => rfl
    | _ => exact absurd h (by simp [Entry.resultId])
  have hk : thinkingPayload e = [] := by
    cases e with
    | toolResult => rfl
    | _ => exact absurd h (by simp [Entry.resultId])
  unfold summaryBytes
  simp [flatMap_append, ht, hk]

theorem append_said {q : Query} {e : Entry} {id : Bytes} (h : e.resultId = some id) :
    summaryBytes (q.append [e]).produced = summaryBytes q.produced := by
  rw [append_eq]
  split_ifs
  · exact summaryBytes_result h
  · rfl

/-- A step that is no end of a round leaves the session alone, or ends the run with what has been
said so far, otherwise than with a completed answer. -/
inductive Breaks (env : InputEnv) (s : State) : State → Prop
  | on {t : State} : t.sess = s.sess → Breaks env s t
  | off {u : State} (reason : DoneReason) : reason ≠ .completed → u.sess = s.sess →
      summaryBytes u.q.produced = summaryBytes s.q.produced → Breaks env s (u.endRun reason env)

namespace Breaks

variable {env : InputEnv} {s t u : State}

theorem after (hs : t.sess = s.sess) (hp : summaryBytes t.q.produced = summaryBytes s.q.produced)
    (h : Breaks env t u) : Breaks env s u := by
  cases h with
  | on h => exact .on (h.trans hs)
  | off reason hr h1 h2 => exact .off reason hr (h1.trans hs) (h2.trans hp)

theorem pop (rest : List Frame) (h : Breaks env { s with stack := rest } t) : Breaks env s t :=
  after (t := { s with stack := rest }) rfl rfl h

theorem finalize {reason : DoneReason} (hr : reason ≠ .completed) (env : InputEnv) (s : State) :
    Breaks env s (s.finalize reason env) := by
  by_cases hrun : s.q.running = true
  · rw [finalize_of_running reason env hrun]
    exact .off reason hr rfl rfl
  · have he : s.finalize reason env = s := if_neg hrun
    rw [he]
    exact .on rfl

theorem submitRound {k : SubmitKind} (hk : ∀ rk, k ≠ .run rk) (env : InputEnv) (s : State) :
    Breaks env s (s.submitRound k env) :=
  .on (show Quiet True s _ from Quiet.submitRound hk env s).sess

theorem tailCheck {k : SubmitKind} (hk : ∀ rk, k ≠ .run rk) (env : InputEnv) (s : State) :
    Breaks env s (s.tailCheck k env) := by
  unfold State.tailCheck
  split
  · split
    · exact finalize (by simp) env s
    · exact submitRound hk env s
  · exact .on rfl

theorem afterDispatch (env : InputEnv) (s : State) : Breaks env s (s.afterDispatch env) := by
  have h0 : ∀ {t}, Breaks env { s with q := { s.q with pending := [] } } t → Breaks env s t :=
    after rfl rfl
  unfold State.afterDispatch
  dsimp only
  split
  · exact h0 (finalize (by simp) env _)
  · split
    · exact .on rfl
    · exact h0 (submitRound (by simp) env _)

theorem dispatchFrom (env : InputEnv) : ∀ (cs : List Call) (i : ℕ) (s : State),
    Breaks env s (s.dispatchFrom env cs i)
  | [], _, s => afterDispatch env s
  | c :: cs, i, s => by
    unfold State.dispatchFrom
    split
    · exact afterDispatch env s
    · split
      · have hsaid := append_said (q := s.q) (unknownToolResult_id c)
        exact after (t := { s with q := s.q.append [unknownToolResult c] }) rfl hsaid
          (dispatchFrom env cs (i + 1) _)
      · split
        · exact .on rfl
        · exact .on rfl

theorem afterInvoke (k : InvokeKind) (env : InputEnv) (s : State) :
    Breaks env s (s.afterInvoke k env) := by
  cases k with
  | dispatch i => exact dispatchFrom env _ _ s
  | allow r => exact tailCheck (by simp) env s

theorem handlerReturned (k : InvokeKind) (v : Invocation) (inv : ℕ) (trc : Errno) (out : ToolOut)
    (env : InputEnv) (s : State) : Breaks env s (s.handlerReturned k v inv trc out env) := by
  unfold State.handlerReturned
  split
  · exact .on rfl
  · split
    · exact after (t := { s with q := { s.q with async := s.q.async ++ [⟨v.tool, v.call, .running, none, inv⟩] } })
        rfl rfl (afterInvoke k env _)
    · exact .on rfl

theorem toolConfirmResolve (r : ℕ) (v : Resolver) (d : Decision) (reason : Bytes) (env : InputEnv)
    (s : State) : Breaks env s (s.toolConfirmResolve r v d reason env) := by
  unfold State.toolConfirmResolve
  split
  · exact .on rfl
  dsimp only
  split
  · exact .on rfl
  split
  · exact .on rfl
  · next a rest _ =>
    cases d with
    | reject =>
      have hsaid := append_said (q := { s.q with async := rest }) (rejectedResult_id a.call.id reason)
      refine after ?_ ?_ (tailCheck (k := .reject) (by simp) env _)
      · rfl
      · exact hsaid
    | allow => exact .on rfl

end Breaks

/-- The end of a round on the session: it leaves it alone, or it ends the run with the Assistant turn
committed. -/
theorem commitAndBranch_breaks (reason : ProviderStop) (userCancel : Bool) (env : InputEnv) (s : State) :
    (s.commitAndBranch reason userCancel env).sess = s.sess ∨
    ∃ (r : DoneReason) (u : State), s.commitAndBranch reason userCancel env = u.endRun r env ∧
      u.sess = s.sess ∧ summaryBytes u.q.produced = summaryBytes (commitAssistantTurn s.q).produced ∧
      (r = .completed ↔ userCancel = false ∧ (reason = .endTurn ∨ reason = .maxTokens)) := by
  have hbreak : ∀ {t : State}, Breaks env { s with q := commitAssistantTurn s.q } t →
      ¬ (userCancel = false ∧ (reason = .endTurn ∨ reason = .maxTokens)) → t.sess = s.sess ∨
      ∃ (r : DoneReason) (u : State), t = u.endRun r env ∧
        u.sess = s.sess ∧ summaryBytes u.q.produced = summaryBytes (commitAssistantTurn s.q).produced ∧
        (r = .completed ↔ userCancel = false ∧ (reason = .endTurn ∨ reason = .maxTokens)) := by
    intro t ht hno
    cases ht with
    | on h => exact .inl h
    | off r hr h1 h2 => exact .inr ⟨r, _, rfl, h1, h2, iff_of_false hr hno⟩
  unfold State.commitAndBranch
  dsimp only
  split
  · next hd =>
    simp only [Bool.and_eq_true, Bool.not_eq_true', decide_eq_true_eq] at hd
    have hno : ¬ (userCancel = false ∧ (reason = .endTurn ∨ reason = .maxTokens)) := by
      rw [hd.1.2]
      simp
    unfold State.toolLoop
    split
    · exact hbreak (Breaks.finalize (by simp) env _) hno
    · exact hbreak (Breaks.dispatchFrom env _ _ _) hno
  · by_cases hrun : s.q.running = true
    · right
      have hrun' : (commitAssistantTurn s.q).running = true := by
        rw [commitAssistantTurn, append_eq]
        exact hrun
      refine ⟨translateTerminal reason userCancel, { s with q := commitAssistantTurn s.q },
        finalize_of_running _ _ hrun', rfl, rfl, ?_⟩
      cases userCancel with
      | true => simp [translateTerminal]
      | false => cases reason <;> simp [translateTerminal]
    · left
      have he : ({ s with q := commitAssistantTurn s.q } : State).finalize
          (translateTerminal reason userCancel) env = { s with q := commitAssistantTurn s.q } := by
        refine if_neg ?_
        rw [commitAssistantTurn, append_eq]
        exact hrun
      rw [he]

theorem cancelFrom_sess (k : CancelKind) : ∀ (as : List AsyncTool) (i : ℕ) (s : State),
    (s.cancelFrom k as i).sess = s.sess
  | [], _, s => by cases k <;> rfl
  | a :: as, i, s => by
    unfold State.cancelFrom
    split
    · exact cancelFrom_sess k as (i + 1) _
    · rfl

theorem destroy_sess (k : CancelKind) (s : State) : (State.destroy k s).sess = s.sess := by
  unfold State.destroy
  split
  · rfl
  · cases k <;> rfl

/-- **The end of a compact**: the run ends with what was said, on the session as it was. -/
theorem compact_ends (hs : step s l = some t) (ha : s.alive = true)
    (hc : s.sess.compacting = true) (ht : t.sess.compacting = false) :
    ∃ (reason : DoneReason) (u : State), t = u.endRun reason l.env ∧ u.sess = s.sess ∧
      summaryBytes u.q.produced = said s l ∧ (reason = .completed ↔ completes s l = true) := by
  have hno : t.sess = s.sess → False := by
    intro he
    rw [he, hc] at ht
    exact absurd ht (by simp)
  have hbreak : Breaks l.env s t → commits s l = false → completes s l = false →
      ∃ (reason : DoneReason) (u : State), t = u.endRun reason l.env ∧ u.sess = s.sess ∧
        summaryBytes u.q.produced = said s l ∧ (reason = .completed ↔ completes s l = true) := by
    intro hb hcom hcompl
    cases hb with
    | on he => exact (hno he).elim
    | @off u reason hr h1 h2 =>
      refine ⟨reason, u, rfl, h1, ?_, iff_of_false hr (by simp [hcompl])⟩
      rw [h2, said, hcom]
      rfl
  have hbusy : ∀ (auto : Bool) (msg : Message) (env : InputEnv) (u : State), u.sess.compacting = true →
      (u.sessionInput auto msg env).sess = u.sess := by
    intro auto msg env u hu
    unfold State.sessionInput
    rw [if_pos (by simp [hu])]
    rfl
  have htook := took_of_step hs
  obtain ⟨m, env⟩ := l
  cases htook with
  | input msg _ => exact (hno (hbusy _ _ _ _ hc)).elim
  | cancel _ =>
    refine (hno ?_).elim
    unfold State.sessionCancel
    split <;> rfl
  | resolve r d reason v _ => exact hbreak (Breaks.toolConfirmResolve r v d reason env s) rfl rfl
  | complete id out inv => exact (hno (show Quiet True _ _ from Settles.asyncToolComplete id out _).sess).elim
  | done serial reason err usage f _ =>
    obtain ⟨_, _, _, _, he⟩ := usageAccumulate_frame s.q usage f.seq
    have hq : ((s.land serial).emit (.provDone f.run f.turn)).q = s.q := rfl
    unfold State.onProviderDone at hno ⊢
    rw [hq] at hno ⊢
    by_cases hrun : (!s.q.running) = true
    · rw [if_pos hrun] at hno
      exact (hno rfl).elim
    rw [if_neg hrun] at hno ⊢
    by_cases herr : reason = .error ∧ err ≠ .ok
    · rw [if_pos herr] at hno
      exact (hno rfl).elim
    rw [if_neg herr] at hno ⊢
    rcases commitAndBranch_breaks reason
      (decide (reason = .cancelled) || (usageAccumulate s.q usage f.seq).cancelled) env
      { (s.land serial).emit (.provDone f.run f.turn) with
        q := usageAccumulate s.q usage f.seq } with hsame | ⟨r, u, hu, husess, hsaid, hr⟩
    · exact (hno hsame).elim
    · refine ⟨r, u, hu, husess, ?_, ?_⟩
      · rw [hsaid]
        rw [he, said, if_pos (by rfl), commitAssistantTurn, commitAssistantTurn, append_eq, append_eq]
        rfl
      · rw [hr, he]
        simp only [completes, Bool.and_eq_true, Bool.not_eq_true', Bool.or_eq_true, Bool.or_eq_false_iff,
          decide_eq_true_eq, decide_eq_false_iff_not]
        refine and_congr_left fun hend => ?_
        refine and_iff_right ?_
        rcases hend with h | h
        · rw [h]; simp
        · rw [h]; simp
  | handlerRet trc out k v inv rest hst =>
    have hb := Breaks.handlerReturned k v inv trc out env { s with stack := rest }
    exact hbreak (hb.pop rest) rfl rfl
  | retSubmit k rest _ =>
    refine (hno ?_).elim
    unfold submitAccepted
    split <;> rfl
  | retConfirm i rest hst =>
    exact hbreak (Breaks.pop rest (Breaks.dispatchFrom env _ _ _))
      (by simp [commits, hst]) (by simp [completes, hst])
  | retToolDone k rest hst =>
    exact hbreak (Breaks.pop rest (Breaks.afterInvoke k env _))
      (by simp [commits, hst]) (by simp [completes, hst])
  | retCompleteDone rest hst =>
    exact hbreak (Breaks.pop rest (Breaks.tailCheck (by simp) env _))
      (by simp [commits, hst]) (by simp [completes, hst])
  | retErrFinish reason rest hst =>
    by_cases hrun : ({ s with stack := rest } : State).q.running = true
    · refine ⟨reason, { s with stack := rest }, finalize_of_running _ _ hrun, rfl, ?_, ?_⟩
      · rw [said, show commits s ⟨.ret, env⟩ = false by simp [commits, hst]]
        rfl
      · simp [completes, hst]
    · have hfin : ({ s with stack := rest } : State).finalize reason env = { s with stack := rest } :=
        if_neg hrun
      exact (hno (by rw [hfin])).elim
  | retProvErr c rest hst =>
    rcases commitAndBranch_breaks .error c env { s with stack := rest } with he | ⟨r, u, he, hu, hsaid, hr⟩
    · exact (hno he).elim
    · refine ⟨r, u, he, hu, ?_, ?_⟩
      · rw [hsaid, said, show commits s ⟨.ret, env⟩ = true by simp [commits, hst]]
        rfl
      · rw [hr]
        simp [completes, hst]
  | retProvCancel k rest _ _ | retCancelTool i k rest _ _ => exact (hno (cancelFrom_sess k _ _ _)).elim
  | retSessDone rest _ | destroy _ _ => exact (hno (destroy_sess _ _)).elim
  | retCompactDone rest _ _ =>
    have hsame : (State.autoRetryPending env { s with stack := rest }).sess.compacting = true := by
      unfold State.autoRetryPending
      split
      · exact hc
      · rw [hbusy]
        · exact hc
        · exact hc
    rw [hsame] at ht
    exact absurd ht (by simp)
  | setContextWindow n _ =>
    rw [hc] at ht
    exact absurd ht (by simp)
  | create n hd =>
    rw [ha] at hd
    exact absurd hd (by simp)
  | _ => exact (hno rfl).elim

/-! ### What a compact promises -/

/-- What the end of a compact, launched on the history `H`, is to leave. -/
structure CompactKept (H : List Slot) (s : State) (l : Label) (t : State) (reason : DoneReason) : Prop
    where
  spliced : reason = .completed → usable s l = true → ∃ z : Entry, z.role = .summary ∧
    entries t.sess.history = headOf s.conf (entries H) ++ z :: tailOf s.conf (entries H)
  headless : reason = .completed → usable s l = true → s.conf.headTurns = 0 →
    headOf s.conf (entries H) = []
  untouched : reason ≠ .completed → t.sess.history = H
  paired : Closed entryMark (entries H) → Closed entryMark (entries t.sess.history)

/-- The history starts with a user turn, if it has any entries. -/
def userFirst (h : List Slot) : Bool := h.head?.all (fun x => x.entry.isUser)

/-- **When the end of a compact keeps the promise**: a run that does not end with a completed answer
has said nothing, and no entry precedes the first user turn when no head is to be kept. -/
def compactSound (s : State) (l : Label) : Bool :=
  !usable s l || (completes s l && (s.conf.headTurns ≠ 0 || userFirst s.sess.history))

theorem headOf_eq_nil {h : List Slot} (h0 : conf.headTurns = 0) :
    headOf conf (entries h) = [] ↔ userFirst h = true := by
  unfold headOf userFirst
  rw [h0, show (0 : UInt64).toNat = 0 from rfl, beforeNth_zero_eq_nil, entries, List.head?_map]
  cases h.head? with
  | none | some x => simp

theorem endRun_history (reason : DoneReason) (env : InputEnv) {u : State}
    (hc : u.sess.compacting = true) (hm : Marked conf u.sess) :
    (summaryBytes u.q.produced ≠ [] ∧ env.summaryOk = true → ∃ z : Slot, z.entry.role = .summary ∧
      (u.endRun reason env).sess.history = Flushed.splice u.sess.history u.sess.compactStart
        u.sess.compactEnd z) ∧
    (¬ (summaryBytes u.q.produced ≠ [] ∧ env.summaryOk = true) →
      (u.endRun reason env).sess.history = u.sess.history) := by
  obtain ⟨h1, h2⟩ := hm.lt
  unfold State.endRun State.sessFwdOnDone
  rw [if_pos (by exact hc)]
  unfold State.compactFinished
  refine ⟨fun hok => ⟨⟨u.nextUid, summaryEntry u.q.produced⟩, rfl, ?_⟩, fun hno => ?_⟩
  · rw [if_pos (by exact hok)]
    exact spliceSummary_history ⟨u.nextUid, summaryEntry u.q.produced⟩ h1 h2
  · rw [if_neg (by exact hno)]
    rfl

theorem splice_ne (hm : Marked conf x) {z : Slot}
    (hz : z.entry.role = .summary) :
    Flushed.splice x.history x.compactStart x.compactEnd z ≠ x.history := by
  obtain ⟨h1, h2⟩ := hm.lt
  obtain ⟨hturn, -⟩ := compactRange_turns hm.range
  intro he
  have hget : (Flushed.splice x.history x.compactStart x.compactEnd z)[x.compactStart]? = some z := by
    have hlen : (x.history.take x.compactStart).length = x.compactStart :=
      length_take_of_le (by omega)
    unfold Flushed.splice
    rw [List.getElem?_append_right (by omega), hlen, Nat.sub_self]
    rfl
  rw [he] at hget
  have huser := hturn z.entry (by rw [entries, List.getElem?_map, hget]; rfl)
  rw [hz] at huser
  exact absurd huser (by simp)

theorem step_conf (hs : step s l = some t) : t.conf = s.conf := by
  cases effect_of_step hs with
  | settles hset =>
    cases hset with
    | quiet hq | finished hq _ _ => exact hq.conf
    | @ended u reason hq _ =>
      have he : (u.endRun reason l.env).conf = u.conf := by
        rcases endRun_ledger reason l.env u with ⟨-, z, -, -, hl⟩ | ⟨-, hl⟩ | ⟨-, hl⟩
        all_goals exact congrArg Ledger.conf hl
      exact he.trans hq.conf
  | received msg _ hi hr =>
    have h0 := congrArg Ledger.conf (incoming_same hi).1
    cases hr with
    | kept x _ _ hl _ | launched x _ _ _ _ _ _ hl _ | withdrawn x o _ _ _ hl _ _ | accepted x o _ _ _ _ hl _ =>
      exact (congrArg Ledger.conf hl).trans h0
  | window n | create n _ _ => rfl

/-- **The end of a compact keeps the promise exactly when `compactSound` holds.** -/
theorem compactKept_step (hr : Ranged s) (hs : step s l = some t)
    (ha : s.alive = true) (hc : s.sess.compacting = true) (ht : t.sess.compacting = false) :
    ∃ reason run post, t.trace = .done run reason :: post ∧
      (CompactKept s.sess.history s l t reason ↔ compactSound s l = true) := by
  obtain ⟨reason, u, rfl, hu, hsaid, hreason⟩ := compact_ends hs ha hc ht
  have huc : u.sess.compacting = true := by rw [hu]; exact hc
  have hm : Marked s.conf s.sess := hr ha hc
  obtain ⟨hstart, hstop⟩ := compactRange_turns hm.range
  obtain ⟨hhead, htail⟩ := compactRange_parts hm.range
  have hhist := endRun_history reason l.env huc
    (show Marked s.conf u.sess by rw [hu]; exact hm)
  rw [hsaid, hu] at hhist
  have htrace : (u.endRun reason l.env).trace = .done u.run reason :: u.trace := by
    unfold State.endRun State.sessFwdOnDone
    rw [if_pos (by exact huc)]
    unfold State.compactFinished
    split <;> rfl
  refine ⟨reason, u.run, u.trace, htrace, ?_⟩
  cases huse : usable s l with
  | false =>
    have hsame := hhist.2 (by simpa [usable] using huse)
    refine iff_of_true ⟨fun _ h => ?_, fun _ h => ?_, fun _ => hsame, fun h => ?_⟩ (by simp [compactSound, huse])
    · rw [huse] at h
      exact absurd h (by simp)
    · rw [huse] at h
      exact absurd h (by simp)
    · rw [hsame]
      exact h
  | true =>
    obtain ⟨z, hz, hsp⟩ := hhist.1 (by simpa [usable] using huse)
    cases hcomp : completes s l with
    | false =>
      have hne : reason ≠ .completed := fun h => by
        have := hreason.mp h
        rw [hcomp] at this
        exact absurd this (by simp)
      refine iff_of_false (fun h => ?_) (by simp [compactSound, huse, hcomp])
      have hsame := h.untouched hne
      rw [hsp] at hsame
      exact splice_ne hm hz hsame
    | true =>
      have hdone := hreason.mpr hcomp
      have hentries : entries (u.endRun reason l.env).sess.history =
          headOf s.conf (entries s.sess.history) ++ z.entry :: tailOf s.conf (entries s.sess.history) := by
        rw [hsp, ← hhead, ← htail, Flushed.splice, entries, map_append, map_cons, map_take,
          map_drop]
        rfl
      have hbool : compactSound s l = true ↔ (s.conf.headTurns = 0 →
          headOf s.conf (entries s.sess.history) = []) := by
        simp only [compactSound, huse, hcomp, Bool.not_true, Bool.false_or, Bool.true_and, Bool.or_eq_true,
          decide_eq_true_eq]
        constructor
        · rintro (h | h) h0
          · exact absurd h0 h
          · exact (headOf_eq_nil h0).mpr h
        · intro h
          by_cases h0 : s.conf.headTurns = 0
          · exact .inr ((headOf_eq_nil h0).mp (h h0))
          · exact .inl h0
      rw [hbool]
      refine ⟨fun h => h.headless hdone huse, fun h => ⟨fun _ _ => ⟨z.entry, hz, hentries⟩, fun _ _ => h,
        fun hne => absurd hdone hne, fun hcl => ?_⟩⟩
      rw [hentries, ← hhead, ← htail]
      refine hcl.splice ?_ hstart.other hstop.other
      rw [entryMark, hz]

/-- **A compact, from its launch to its end**: whatever happens to the session `s₁` in between, the end
keeps its promise about the history of `s₁` exactly when `compactSound` holds. -/
theorem compactKept_iff {conf : Conf} {contextWindow nextUid : ℕ} {store : List Slot} {s₁ s t : State}
    {l : Label} (h₁ : Run step (fun _ _ => True) (init conf contextWindow store nextUid) s₁)
    (hrun : Run step (fun s _ => s.alive = true ∧ s.sess.compacting = true) s₁ s)
    (ha : s.alive = true) (hc : s.sess.compacting = true) (hs : step s l = some t)
    (ht : t.sess.compacting = false) :
    ∃ reason run post, t.trace = .done run reason :: post ∧
      (CompactKept s₁.sess.history s l t reason ↔ compactSound s l = true) := by
  have hall : Run step (fun _ _ => True) (init conf contextWindow store nextUid) s :=
    h₁.trans (hrun.mono fun _ _ _ => trivial)
  have hsame : s.sess.history = s₁.sess.history := by
    clear hs ht hall
    induction hrun with
    | refl => rfl
    | tail _ hok hstep ih =>
      obtain ⟨-, -, ⟨hno, -⟩ | ⟨-, n, p, he⟩⟩ := compacting_step hstep ha hc
      · rw [hok.2] at hno
        exact absurd hno (by simp)
      · rw [← ih hok.1 hok.2, he]
  rw [← hsame]
  exact compactKept_step (ranged_of_run hall) hs ha hc ht

/-! ### Compacts on fixed inputs -/

/-- The step `l` ends the compact under way, and `p` holds of the history it was launched on and of the
states before and after. -/
def endsWith (l : Label) (p : List Slot → State → State → Bool) (H : List Slot) (s : State) : Bool :=
  s.alive && s.sess.compacting &&
  match step s l with
  | none => false
  | some t => !t.sess.compacting && p H s t

theorem exists_compact (l : Label) (p : List Slot → State → State → Bool) {s₀ : State}
    {ms₁ ms₂ : List Label}
    (h : replay step (fun _ _ => true) (fun s₁ => replay step (fun s _ => s.alive && s.sess.compacting)
      (endsWith l p s₁.sess.history) s₁ ms₂) s₀ ms₁ = true) :
    ∃ s₁ s t, Run step (fun _ _ => True) s₀ s₁ ∧
      Run step (fun s _ => s.alive = true ∧ s.sess.compacting = true) s₁ s ∧ s.alive = true ∧
      s.sess.compacting = true ∧ step s l = some t ∧ t.sess.compacting = false ∧
      p s₁.sess.history s t = true := by
  obtain ⟨s₁, h1, h2⟩ := exists_run_of_replay step (fun _ _ => True) _ _ (fun _ _ _ => trivial) h
  obtain ⟨s, h3, h4⟩ := exists_run_of_replay step
    (fun s _ => s.alive = true ∧ s.sess.compacting = true) _ _ (fun _ _ h => by simpa using h) h2
  unfold endsWith at h4
  rw [Bool.and_eq_true, Bool.and_eq_true] at h4
  obtain ⟨⟨ha, hc⟩, h4⟩ := h4
  cases hs : step s l with
  | none =>
    rw [hs] at h4
    exact absurd h4 (by simp)
  | some t =>
    rw [hs, Bool.and_eq_true, Bool.not_eq_true'] at h4
    exact ⟨s₁, s, t, h1, h3, ha, hc, hs, h4.1, h4.2⟩

/-- A session of two turns launches a compact of the first. -/
def launchTwo : List Label := [⟨.input hello, {}⟩]

/-- A compact that is answered keeps its promise. -/
theorem compactKept_iff_answered :
    ∃ s₁ s t reason, Run step (fun _ _ => True) (init (storeConf 1) 20 (slotsFrom 0 twoTurns) 4) s₁ ∧
      Run step (fun s _ => s.alive = true ∧ s.sess.compacting = true) s₁ s ∧
      step s ⟨.done 0 .endTurn .ok none, {}⟩ = some t ∧ usable s ⟨.done 0 .endTurn .ok none, {}⟩ = true ∧
      CompactKept s₁.sess.history s ⟨.done 0 .endTurn .ok none, {}⟩ t reason := by
  obtain ⟨s₁, s, t, h1, h2, ha, hc, hs, ht, hp⟩ := exists_compact ⟨.done 0 .endTurn .ok none, {}⟩
    (fun _ s _ => usable s ⟨.done 0 .endTurn .ok none, {}⟩ && compactSound s ⟨.done 0 .endTurn .ok none, {}⟩)
    (show replay step _ _ (init (storeConf 1) 20 (slotsFrom 0 twoTurns) 4) launchTwo = true from
      (by rfl : replay step (fun _ _ => true) (fun s₁ => replay step (fun s _ => s.alive && s.sess.compacting)
        (endsWith _ _ s₁.sess.history) s₁ [⟨.ret, {}⟩, ⟨.text 0 (bytes "s"), {}⟩]) _ _ = true))
  rw [Bool.and_eq_true] at hp
  obtain ⟨reason, -, -, -, hkept⟩ := compactKept_iff h1 h2 ha hc hs ht
  exact ⟨s₁, s, t, reason, h1, h2, hs, hp.1, hkept.mpr hp.2⟩

/-- The compact ended otherwise than with a completed answer, and the history is not what it was. -/
def lost (H : List Slot) (_ t : State) : Bool :=
  t.sess.history ≠ H &&
  match t.trace with
  | .done _ reason :: _ => reason ≠ .completed
  | _ => false

theorem not_kept_of_lost {H : List Slot} (h : lost H s t = true)
    {reason : DoneReason} {run : ℕ} {post : List Obs} (he : t.trace = .done run reason :: post) :
    ¬ CompactKept H s l t reason := by
  intro hk
  unfold lost at h
  rw [he] at h
  simp only [Bool.and_eq_true, decide_eq_true_eq, ne_eq] at h
  exact h.1 (hk.untouched (by simpa using h.2))

/-- **What a failed compact said replaces the turns it was to summarise**: the provider reports an
error behind the first bytes of the answer. -/
theorem not_compactKept :
    ∃ s₁ s t, Run step (fun _ _ => True) (init (storeConf 1) 20 (slotsFrom 0 twoTurns) 4) s₁ ∧
      Run step (fun s _ => s.alive = true ∧ s.sess.compacting = true) s₁ s ∧
      step s ⟨.ret, {}⟩ = some t ∧ ∀ reason run post, t.trace = .done run reason :: post →
        ¬ CompactKept s₁.sess.history s ⟨.ret, {}⟩ t reason := by
  obtain ⟨s₁, s, t, h1, h2, -, -, hs, -, hp⟩ := exists_compact ⟨.ret, {}⟩ lost
    (show replay step _ _ (init (storeConf 1) 20 (slotsFrom 0 twoTurns) 4) launchTwo = true from
      (by rfl : replay step (fun _ _ => true) (fun s₁ => replay step (fun s _ => s.alive && s.sess.compacting)
        (endsWith _ _ s₁.sess.history) s₁ [⟨.ret, {}⟩, ⟨.text 0 (bytes "s"), {}⟩,
          ⟨.done 0 .error .sysError none, {}⟩]) _ _ = true))
  exact ⟨s₁, s, t, h1, h2, hs, fun reason run post he => not_kept_of_lost hp he⟩

end Libx.Agent
