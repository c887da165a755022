import Libx.Agent.Gate
import Libx.Agent.Machine

/-!
# Libx.Agent.Ledger — what a run leaves alone of the history, the store and the token counts

Nearly every step of a run leaves the session alone; the end of a run and the finalizing append of
a destroy do not.
-/

namespace Libx.Agent

open State List

/-- The part of the state that histories, the store and the token counts live in. -/
structure Ledger where
  conf : Conf
  sess : Session
  store : List Slot
  nextUid : ℕ
  rolledBack : List ℕ
  promptSeq : ℕ
  alive : Bool

def State.ledger (s : State) : Ledger :=
  ⟨s.conf, s.sess, s.store, s.nextUid, s.rolledBack, s.promptSeq, s.alive⟩

def Entry.ofRun (e : Entry) : Bool := e.role = .assistant || e.role = .tool

/-- `produced_arr` holds what a run adds. -/
def OfRun (s : State) : Prop := ∀ e ∈ s.q.produced, e.ofRun = true

/-- Entry number `n` is above the whole history. -/
def Over (s : State) (n : ℕ) : Prop := n ≤ s.nextUid ∧ ∀ x ∈ s.sess.history, x.uid < n

/-- The prompts of the current run, and the one its first usage report is about, were built on the
whole history. -/
structure Above (s : State) : Prop where
  fresh : ∀ x ∈ s.sess.history, x.uid < s.nextUid
  runs : ∀ f ∈ s.flights, f.run ≤ s.run
  seqs : s.q.running = true → s.sess.compacting = false → ∀ f ∈ s.flights, f.run = s.run → Over s f.seq
  first : s.q.running = true → s.sess.compacting = false → 0 < s.q.firstRoundPromptTokens →
    Over s s.q.firstSeq

/-- A step that leaves the ledger alone.  `own` says that the usage report of the step, if there is
one, is about the current run. -/
structure Quiet (own : Prop) (s t : State) : Prop where
  ledger : t.ledger = s.ledger
  running : t.q.running = true → s.q.running = true ∧ t.q.live = s.q.live
  produced : OfRun s → OfRun t
  above : own → Above s → Above t

namespace Quiet

variable {own : Prop} {s t u : State}

theorem refl (s : State) : Quiet own s s := ⟨rfl, fun h => ⟨h, rfl⟩, id, fun _ => id⟩

theorem trans (h₁ : Quiet own s t) (h₂ : Quiet own t u) : Quiet own s u :=
  ⟨h₂.ledger.trans h₁.ledger, fun h => ⟨(h₁.running (h₂.running h).1).1,
      (h₂.running h).2.trans (h₁.running (h₂.running h).1).2⟩, h₂.produced ∘ h₁.produced, fun h => h₂.above h ∘ h₁.above h⟩

theorem sess (h : Quiet own s t) : t.sess = s.sess := congrArg Ledger.sess h.ledger

theorem conf (h : Quiet own s t) : t.conf = s.conf := congrArg Ledger.conf h.ledger

theorem store (h : Quiet own s t) : t.store = s.store := congrArg Ledger.store h.ledger

theorem nextUid (h : Quiet own s t) : t.nextUid = s.nextUid := congrArg Ledger.nextUid h.ledger

theorem alive (h : Quiet own s t) : t.alive = s.alive := congrArg Ledger.alive h.ledger

theorem of_eq (hl : t.ledger = s.ledger) (hp : t.q.produced = s.q.produced)
    (hf : ∀ f ∈ t.flights, f ∈ s.flights) (hr : t.run = s.run)
    (hu : t.q.firstRoundPromptTokens = s.q.firstRoundPromptTokens) (hs : t.q.firstSeq = s.q.firstSeq)
    (hg : t.q.running = true → s.q.running = true ∧ t.q.live = s.q.live) : Quiet own s t := by
  have hsess : t.sess = s.sess := congrArg Ledger.sess hl
  have huid : t.nextUid = s.nextUid := congrArg Ledger.nextUid hl
  refine ⟨hl, hg, fun h e he => h e (hp ▸ he), fun _ h => ?_⟩
  have hover : ∀ n, Over s n → Over t n := by
    intro n hn
    unfold Over
    rw [hsess, huid]
    exact hn
  refine ⟨?_, ?_, ?_, ?_⟩
  · rw [hsess, huid]
    exact h.fresh
  · intro f hm
    rw [hr]
    exact h.runs f (hf f hm)
  · intro hrun hc f hm he
    rw [hsess] at hc
    rw [hr] at he
    exact hover _ (h.seqs (hg hrun).1 hc f (hf f hm) he)
  · intro hrun hc hu'
    rw [hsess] at hc
    rw [hu] at hu'
    rw [hs]
    exact hover _ (h.first (hg hrun).1 hc hu')

theorem push (f : Frame) (s : State) : Quiet own s (s.push f) :=
  of_eq rfl rfl (fun _ h => h) rfl rfl rfl (fun h => ⟨h, rfl⟩)

theorem returnInput (auto : Bool) (rc : Errno) (s : State) : Quiet own s (s.returnInput auto rc) :=
  of_eq rfl rfl (fun _ h => h) rfl rfl rfl (fun h => ⟨h, rfl⟩)

theorem append (s : State) (es : List Entry) (h : ∀ e ∈ es, e.ofRun = true) :
    Quiet own s { s with q := s.q.append es } := by
  rw [append_eq]
  refine ⟨rfl, fun h => ⟨h, rfl⟩, fun hs e he => ?_, fun _ ha => ⟨ha.fresh, ha.runs, ha.seqs, ha.first⟩⟩
  split at he
  · rcases mem_append.mp he with h1 | h1
    · exact hs e h1
    · exact h e h1
  · exact hs e he

theorem queryRelease (s : State) : Quiet own s s.queryRelease :=
  ⟨rfl, fun h => absurd h (by simp [State.queryRelease]),
    fun _ e he => absurd he (by simp [State.queryRelease]),
    fun _ h => ⟨h.fresh, h.runs, fun h1 => absurd h1 (by simp [State.queryRelease]),
      fun h1 => absurd h1 (by simp [State.queryRelease])⟩⟩

/-- `submit_round`, for any caller but `xAgentQueryRun`: a round that is submitted is numbered above
the history. -/
theorem submitRound {k : SubmitKind} (hk : ∀ rk, k ≠ .run rk) (env : InputEnv) (s : State) :
    Quiet own s (s.submitRound k env) := by
  have hfail : ∀ (rc : Errno) (u : State), Quiet own u (u.submitFailed k rc) := by
    intro rc u
    cases k with
    | run rk => exact absurd rfl (hk rk)
    | _ => exact push _ u
  have hprep : ∀ msgs, Quiet own s (s.prepareRound msgs) := fun msgs =>
    of_eq rfl rfl (fun _ h => h) rfl rfl rfl (fun h => ⟨h, rfl⟩)
  unfold State.submitRound
  cases viewBuild s.q.inputs s.q.produced with
  | error rc => exact hfail rc s
  | ok msgs =>
    refine (hprep msgs).trans ?_
    dsimp only
    split
    · refine ⟨rfl, fun h => ⟨h, rfl⟩, id, fun _ h => ⟨h.fresh, ?_, ?_, h.first⟩⟩
      · intro f hm
        rcases mem_cons.mp hm with h1 | h1
        · rw [h1]; exact le_rfl
        · exact h.runs f h1
      · intro hrun hc f hm he
        rcases mem_cons.mp hm with h1 | h1
        · rw [h1]; exact ⟨le_rfl, h.fresh⟩
        · exact h.seqs hrun hc f h1 he
    · exact hfail _ _

end Quiet

/-! ### The end of a run -/

/-- `query_finalize` on a running Query. -/
def State.endRun (reason : DoneReason) (env : InputEnv) (s : State) : State :=
  sessFwdOnDone env ({ s with q := { s.q with running := false } }.emit (.done s.run reason))

theorem finalize_of_running {s : State} (reason : DoneReason) (env : InputEnv)
    (h : s.q.running = true) : s.finalize reason env = s.endRun reason env := if_pos h

def Session.settled (x : Session) : Session :=
  { x with compacting := false, compactStart := 0, compactEnd := 0 }

/-- **The end of a run on the ledger**: a summary is spliced in, the compact is given up, or the
run's entries are added. -/
theorem endRun_ledger (reason : DoneReason) (env : InputEnv) (s : State) :
    (s.sess.compacting = true ∧ ∃ z : Slot, z.uid = s.nextUid ∧ z.entry.role = .summary ∧
      (s.endRun reason env).ledger = { s.ledger with
        sess := (spliceSummary s.sess z).settled
        store := if s.conf.hasMemory then s.store ++ compactBatch s.sess ++ [z] else s.store
        nextUid := s.nextUid + 1 }) ∨
    (s.sess.compacting = true ∧
      (s.endRun reason env).ledger = { s.ledger with sess := s.sess.settled }) ∨
    (s.sess.compacting = false ∧ (s.endRun reason env).ledger = { s.ledger with
      sess := { (recordUsage s).sess with
        history := s.sess.history ++ slotsFrom s.nextUid s.q.produced
        deltaEntries := (recordUsage s).sess.deltaEntries + s.q.produced.length }
      nextUid := s.nextUid + s.q.produced.length
      promptSeq := (recordUsage s).promptSeq }) := by
  unfold State.endRun State.sessFwdOnDone
  split
  · next hc =>
    unfold State.compactFinished
    split
    · refine .inl ⟨hc, ⟨s.nextUid, summaryEntry s.q.produced⟩, rfl, rfl, ?_⟩
      cases hm : s.conf.hasMemory with
      | true =>
        simp only [State.ledger, State.push, State.queryRelease, State.compactSucceeded,
          State.memoryAppend, State.emit, hm, if_true, Session.settled]
      | false =>
        simp only [State.ledger, State.push, State.queryRelease, State.compactSucceeded,
          State.memoryAppend, State.emit, hm, Session.settled]
        rfl
    · exact .inr (.inl ⟨hc, rfl⟩)
  · next hc =>
    have hc : s.sess.compacting = false := by simpa [State.emit] using hc
    exact .inr (.inr ⟨hc, rfl⟩)

/-- What the library's part of a step comes to, for any step but an input. -/
inductive Settles (own : Prop) (env : InputEnv) (s : State) : State → Prop
  | quiet {t : State} : Quiet own s t → Settles own env s t
  | ended {t : State} (reason : DoneReason) : Quiet own s t → t.q.running = true →
      Settles own env s (t.endRun reason env)
  | finished {t : State} : Quiet own s t → s.alive = true → t.q = {} → Settles own env s t.sessionFinish

namespace Settles

variable {own : Prop} {env : InputEnv} {s t u : State}

theorem after (h₁ : Quiet own s t) (h₂ : Settles own env t u) : Settles own env s u := by
  cases h₂ with
  | quiet h => exact .quiet (h₁.trans h)
  | ended reason h hr => exact .ended reason (h₁.trans h) hr
  | finished h ha hq => exact .finished (h₁.trans h) (h₁.alive ▸ ha) hq

theorem finalize (reason : DoneReason) (env : InputEnv) (s : State) :
    Settles own env s (s.finalize reason env) := by
  by_cases hr : s.q.running = true
  · rw [finalize_of_running reason env hr]
    exact .ended reason (.refl s) hr
  · have he : s.finalize reason env = s := if_neg hr
    rw [he]
    exact .quiet (.refl s)

theorem tailCheck {k : SubmitKind} (hk : ∀ rk, k ≠ .run rk) (env : InputEnv) (s : State) :
    Settles own env s (s.tailCheck k env) := by
  unfold State.tailCheck
  split
  · split
    · exact finalize _ _ s
    · exact .quiet (Quiet.submitRound hk env s)
  · exact .quiet (.refl s)

theorem afterDispatch (env : InputEnv) (s : State) : Settles own env s (s.afterDispatch env) := by
  have h0 : Quiet own s { s with q := { s.q with pending := [] } } :=
    .of_eq rfl rfl (fun _ h => h) rfl rfl rfl (fun h => ⟨h, rfl⟩)
  unfold State.afterDispatch
  dsimp only
  split
  · exact after h0 (finalize _ _ _)
  · split
    · exact .quiet h0
    · exact .quiet (h0.trans (Quiet.submitRound (by simp) env _))

theorem dispatchFrom (env : InputEnv) : ∀ (cs : List Call) (i : ℕ) (s : State),
    Settles own env s (s.dispatchFrom env cs i)
  | [], _, s => afterDispatch env s
  | c :: cs, i, s => by
    unfold State.dispatchFrom
    split
    · exact afterDispatch env s
    · split
      · refine after (Quiet.append s [unknownToolResult c] ?_) (dispatchFrom env cs (i + 1) _)
        intro e he
        rw [mem_singleton] at he
        rw [he]; rfl
      · split
        · exact .quiet (.of_eq rfl rfl (fun _ h => h) rfl rfl rfl (fun h => ⟨h, rfl⟩))
        · exact .quiet (.push _ s)

theorem afterInvoke (k : InvokeKind) (env : InputEnv) (s : State) :
    Settles own env s (s.afterInvoke k env) := by
  cases k with
  | dispatch i => exact dispatchFrom env _ _ s
  | allow r => exact tailCheck (by simp) env s

theorem assistantTurn_ofRun (q : Query) : ∀ e ∈ assistantTurn q, e.ofRun = true := by
  intro e he
  unfold assistantTurn at he
  rw [mem_append, mem_append] at he
  rcases he with (h | h) | h
  · split_ifs at h with hr
    · exact absurd h (by simp)
    · rw [mem_singleton] at h; rw [h]; rfl
  · split_ifs at h with hr
    · exact absurd h (by simp)
    · rw [mem_singleton] at h; rw [h]; rfl
  · obtain ⟨c, -, rfl⟩ := mem_map.mp h
    rfl

theorem ofRun_of_resultId {e : Entry} {id : Bytes} (h : e.resultId = some id) : e.ofRun = true := by
  cases e with
  | toolResult id output isError => rfl
  | _ => exact absurd h (by simp [Entry.resultId])

theorem commitAndBranch (reason : ProviderStop) (userCancel : Bool) (env : InputEnv) (s : State) :
    Settles own env s (s.commitAndBranch reason userCancel env) := by
  have h0 : Quiet own s { s with q := commitAssistantTurn s.q } :=
    Quiet.append s _ (assistantTurn_ofRun s.q)
  refine after h0 ?_
  unfold State.commitAndBranch
  dsimp only
  split
  · unfold State.toolLoop
    split
    · exact finalize _ _ _
    · exact dispatchFrom env _ _ _
  · exact finalize _ _ _

theorem handlerReturned (k : InvokeKind) (v : Invocation) (inv : ℕ) (trc : Errno) (out : ToolOut)
    (env : InputEnv) (s : State) : Settles own env s (s.handlerReturned k v inv trc out env) := by
  unfold State.handlerReturned
  split
  · exact .quiet (.refl s)
  · split
    · refine after ?_ (afterInvoke k env _)
      exact .of_eq rfl rfl (fun _ h => h) rfl rfl rfl (fun h => ⟨h, rfl⟩)
    · refine .quiet ((Quiet.append s [resultOf v.call.id trc out] ?_).trans (.push _ _))
      intro e he
      rw [mem_singleton] at he
      exact ofRun_of_resultId (he ▸ resultOf_id _ _ _)

theorem toolConfirmResolve (r : ℕ) (v : Resolver) (d : Decision) (reason : Bytes) (env : InputEnv)
    (s : State) : Settles own env s (s.toolConfirmResolve r v d reason env) := by
  have h0 : Quiet own s
      ({ s with resolvers := s.resolvers.set r { v with done := true } }.emit (.decided r d)) :=
    .of_eq rfl rfl (fun _ h => h) rfl rfl rfl (fun h => ⟨h, rfl⟩)
  unfold State.toolConfirmResolve
  split
  · exact .quiet (.refl s)
  · dsimp only
    split
    · exact .quiet h0
    · split
      · exact .quiet h0
      · next a rest _ =>
        refine after h0 ?_
        set u := { s with resolvers := s.resolvers.set r { v with done := true } }.emit (.decided r d)
        have h1 : Quiet own u { u with q := { u.q with async := rest } } :=
          .of_eq rfl rfl (fun _ h => h) rfl rfl rfl (fun h => ⟨h, rfl⟩)
        refine after h1 ?_
        cases d with
        | reject =>
          refine after ?_ (tailCheck (by simp) env _)
          refine Quiet.append _ _ ?_
          intro e he
          rw [mem_singleton] at he
          exact ofRun_of_resultId (he ▸ rejectedResult_id _ _)
        | allow => exact .quiet (.push _ _)

theorem asyncToolComplete (id : Bytes) (out : ToolOut) (s : State) :
    Quiet own s (s.asyncToolComplete id out) := by
  unfold State.asyncToolComplete
  split
  · exact .refl s
  · next a rest _ =>
    have h1 : Quiet own s { s with q := { s.q with async := rest } } :=
      .of_eq rfl rfl (fun _ h => h) rfl rfl rfl (fun h => ⟨h, rfl⟩)
    refine (h1.trans (Quiet.append _ _ ?_)).trans (.push _ _)
    intro e he
    rw [mem_singleton] at he
    exact ofRun_of_resultId (he ▸ completionOf_id _ _)

theorem cancelEnd (k : CancelKind) (s : State) (ha : s.alive = true) :
    Settles own env s (s.cancelEnd k) := by
  cases k with
  | cancel => exact .quiet (.refl s)
  | queryDestroy => exact .quiet (.queryRelease s)
  | sessionDestroy => exact .finished (.queryRelease s) ha rfl

theorem cancelFrom (k : CancelKind) : ∀ (as : List AsyncTool) (i : ℕ) (s : State), s.alive = true →
    Settles own env s (s.cancelFrom k as i)
  | [], _, s, ha => cancelEnd k s ha
  | a :: as, i, s, ha => by
    unfold State.cancelFrom
    cases a.stage with
    | awaitingConfirm =>
      refine after ?_ (cancelFrom k as (i + 1) _ ha)
      exact .of_eq rfl rfl (fun _ h => h) rfl rfl rfl (fun h => ⟨h, rfl⟩)
    | running => exact .quiet (.push _ s)

theorem markCancel (k : CancelKind) (s : State) : Quiet own s (s.markCancel k) :=
  .of_eq rfl rfl (fun _ h => h) rfl rfl rfl (fun h => ⟨h, rfl⟩)

theorem destroy (k : CancelKind) (s : State) (ha : s.alive = true) :
    Settles own env s (State.destroy k s) := by
  unfold State.destroy
  split
  · exact .quiet (markCancel k s)
  · exact cancelEnd k s ha

theorem queryDestroy (s : State) : Settles own env s (State.destroy .queryDestroy s) := by
  unfold State.destroy
  split
  · exact .quiet (markCancel _ s)
  · exact .quiet (.queryRelease s)

theorem usage (f : Flight) (u : Option Usage) (s : State) (hf : f ∈ s.flights)
    (hown : own → s.q.running = true → s.sess.compacting = false → ∀ v, u = some v →
      s.q.turn = 1 → 0 < v.promptTokens → s.q.firstRoundPromptTokens < 0 → f.run = s.run) :
    Quiet own s { s with q := usageAccumulate s.q u f.seq } := by
  obtain ⟨_, _, _, _, hframe⟩ := usageAccumulate_frame s.q u f.seq
  refine ⟨rfl, fun hr => ?_, fun h => ?_,
    fun ho h => ⟨h.fresh, h.runs, fun hr => h.seqs ?_, fun hr hc hu => ?_⟩⟩
  · rw [hframe] at hr ⊢
    exact ⟨hr, rfl⟩
  · intro e he
    rw [hframe] at he
    exact h e he
  · rw [hframe] at hr
    exact hr
  · have hr' : s.q.running = true := by rw [hframe] at hr; exact hr
    show Over s _
    cases u with
    | none => exact h.first hr' hc hu
    | some v =>
      by_cases hrec : s.q.turn = 1 ∧ v.promptTokens ≥ 0 ∧ s.q.firstRoundPromptTokens < 0
      · have hseq : (usageAccumulate s.q (some v) f.seq).firstSeq = f.seq := by
          simp only [usageAccumulate]
          rw [if_pos hrec]
        have hfirst : (usageAccumulate s.q (some v) f.seq).firstRoundPromptTokens = v.promptTokens := by
          simp only [usageAccumulate]
          rw [if_pos hrec]
        rw [hfirst] at hu
        rw [hseq]
        exact h.seqs hr' hc f hf (hown ho hr' hc v rfl hrec.1 hu hrec.2.2)
      · have hsame : usageAccumulate s.q (some v) f.seq = { s.q with
            sawUsage := true
            usage := (usageAccumulate s.q (some v) f.seq).usage } := by
          simp only [usageAccumulate]
          rw [if_neg hrec]
        rw [hsame] at hu ⊢
        exact h.first hr' hc hu

theorem onProviderDone (reason : ProviderStop) (err : Errno) (u : Option Usage) (seq : ℕ)
    (env : InputEnv) (h0 : Quiet own s t)
    (hu : Quiet own s { t with q := usageAccumulate t.q u seq }) :
    Settles own env s (t.onProviderDone reason err u seq env) := by
  unfold State.onProviderDone
  split
  · exact .quiet h0
  · refine after hu ?_
    split
    · exact .quiet (.push _ _)
    · exact commitAndBranch _ _ env _

end Settles

end Libx.Agent
