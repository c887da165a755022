import Libx.Agent.Ledger

/-!
# Libx.Agent.Effect — the steps that touch the history, the store and the token counts

Besides the end of a run and the finalizing append (`Settles`) these are an input or the retry after
a compact, a new window, and the creation of the next session.
-/

namespace Libx.Agent

open State

/-! ### Inputs -/

/-- `xAgentSessionInput` returns Busy. -/
def State.busy (s : State) : Bool := s.q.live || s.sess.compacting

/-- What the gate may leave of the session for a message with blocks `cs`. -/
def Gated (s : State) (cs : List Content) (env : InputEnv) (x : Session) : Prop :=
  ∃ z, (z = s.sess ∨ overBudget s.conf cs s.sess ∧ z = sessionTrim env.trimOk s.sess) ∧ SameCore z x

namespace Gated

variable {s : State} {cs : List Content} {env : InputEnv} {x : Session}

theorem history (hg : Gated s cs env x) :
    x.history = s.sess.history ∨ x.history = s.sess.history.map (trimSlot env.trimOk) := by
  obtain ⟨z, hz, hcore⟩ := hg
  rw [hcore.history]
  rcases hz with rfl | ⟨-, rfl⟩
  · exact .inl rfl
  · unfold sessionTrim
    split_ifs
    · exact .inr rfl
    · exact .inl rfl

theorem compacting (hg : Gated s cs env x) : x.compacting = s.sess.compacting := by
  obtain ⟨z, hz, hcore⟩ := hg
  rw [hcore.compacting]
  rcases hz with rfl | ⟨-, rfl⟩
  · rfl
  · unfold sessionTrim
    split_ifs <;> rfl

theorem persistedPrefix (hg : Gated s cs env x) : x.persistedPrefix = s.sess.persistedPrefix := by
  obtain ⟨z, hz, hcore⟩ := hg
  rw [hcore.persistedPrefix]
  rcases hz with rfl | ⟨-, rfl⟩
  · rfl
  · unfold sessionTrim
    split_ifs <;> rfl

theorem below (hg : Gated s cs env x) {n : ℕ} (h : ∀ y ∈ s.sess.history, y.uid < n) :
    ∀ y ∈ x.history, y.uid < n := by
  rcases hg.history with hh | hh
  · rw [hh]
    exact h
  · rw [hh]
    intro y hy
    obtain ⟨z, hz, rfl⟩ := List.mem_map.mp hy
    rw [trimSlot_uid]
    exact h z hz

end Gated

/-- Entry `e`, appended to the history `h`, does not get to the provider. -/
def startFails (conf : Conf) (h : List Slot) (env : InputEnv) : Bool :=
  match sessInputViewBuild conf env.memText h env.viewOk with
  | .error _ => true
  | .ok msgs => !env.createOk || !env.copyOk || (turnBufAppend msgs).isEmpty || env.submitRc ≠ .ok

def userSlot (s : State) (msg : Message) : Slot := ⟨s.nextUid, .text msg.role (textOf msg.contents)⟩

/-- The session a message with blocks `cs` finds behind the gate, if it gets there. -/
def State.passed (s : State) (cs : List Content) (env : InputEnv) : Option Session :=
  if s.busy then none
  else match sessionEnforceBudget s.conf cs env s.sess with
  | .pass x => some x
  | _ => none

/-- The message is appended, and its run does not start. -/
def State.withdraws (s : State) (msg : Message) (env : InputEnv) : Bool :=
  match s.passed msg.contents env with
  | none => false
  | some x => env.appendOk && startFails s.conf (x.history ++ [userSlot s msg]) env

def State.accepts (s : State) (msg : Message) (env : InputEnv) : Bool :=
  match s.passed msg.contents env with
  | none => false
  | some x => env.appendOk && !startFails s.conf (x.history ++ [userSlot s msg]) env

/-- The ledger once the user's entry is in the history. -/
def State.noted (s : State) (x : Session) (msg : Message) (o : ℕ) : Ledger :=
  { s.ledger with
    sess := { x with
      history := x.history ++ [userSlot s msg]
      deltaEntries := x.deltaEntries + 1
      overheadTokens := o }
    nextUid := s.nextUid + 1 }

/-- No run was started: the Query is as it was, or released. -/
def NotStarted (s t : State) : Prop :=
  t.flights = s.flights ∧ (t.q = s.q ∧ t.run = s.run ∨ t.q = {} ∧ s.run ≤ t.run)

/-- A run was started, and its first round submitted. -/
structure Started (s t : State) : Prop where
  live : t.q.live = true
  produced : t.q.produced = []
  first : t.q.firstRoundPromptTokens = -1
  run : t.run = s.run + 1
  flights : ∀ f ∈ t.flights, f ∈ s.flights ∨ f.run = t.run ∧ f.seq = t.nextUid

/-- **What an input does to the ledger**: nothing but the gate's part, a compact under way, an entry
that is withdrawn again and still counted, or a new entry. -/
inductive Received (msg : Message) (env : InputEnv) (s : State) : State → Prop
  | kept {t : State} (x : Session) : Gated s msg.contents env x →
      (s.busy = true → x = s.sess) → t.ledger = { s.ledger with sess := x } → NotStarted s t →
      Received msg env s t
  | launched {t : State} (x : Session) (msgs : List Message) : Gated s msg.contents env x →
      s.busy = false → sessionEnforceBudget s.conf msg.contents env s.sess = .launch x msgs →
      x.compactStart < x.compactEnd → x.compactEnd ≤ x.history.length →
      t.ledger = { s.ledger with sess := { x with compacting := true } } → Started s t →
      Received msg env s t
  | withdrawn {t : State} (x : Session) (o : ℕ) : Gated s msg.contents env x →
      s.passed msg.contents env = some x → s.withdraws msg env = true →
      t.ledger = { s.ledger with
        sess := { x with deltaEntries := x.deltaEntries + 1, overheadTokens := o }
        nextUid := s.nextUid + 1
        rolledBack := s.rolledBack ++ [s.nextUid] } → s.busy = false → NotStarted s t →
      Received msg env s t
  | accepted {t : State} (x : Session) (o : ℕ) : Gated s msg.contents env x →
      s.busy = false → s.passed msg.contents env = some x → s.accepts msg env = true →
      t.ledger = s.noted x msg o → Started s t → Received msg env s t

theorem queryRun_cases (user : Bool) (maxTurns : ℤ) (k : RunKind) (msgs : List Message)
    (env : InputEnv) (s : State) :
    (∃ (rc : Errno) (u : State), u.ledger = s.ledger ∧ u.flights = s.flights ∧ u.run = s.run + 1 ∧
      (s.create user maxTurns).queryRun k msgs env = u.runFailed k rc ∧
      (env.copyOk = false ∨ turnBufAppend msgs = [] ∨ env.submitRc ≠ .ok)) ∨
    ((s.create user maxTurns).queryRun k msgs env).ledger = s.ledger ∧
      Started s ((s.create user maxTurns).queryRun k msgs env) ∧
      env.copyOk = true ∧ turnBufAppend msgs ≠ [] ∧ env.submitRc = .ok := by
  unfold State.queryRun
  split
  · next hcopy =>
    unfold State.submitRound
    cases hv : viewBuild (turnBufAppend msgs) (s.create user maxTurns).q.produced with
    | error rc =>
      left
      refine ⟨rc, _, ?_, ?_, ?_, rfl, .inr (.inl ?_)⟩
      · rfl
      · rfl
      · rfl
      · unfold viewBuild at hv
        split_ifs at hv with h
        exact (List.append_eq_nil_iff.mp h).1
    | ok ms =>
      dsimp only
      split
      · next hrc =>
        right
        refine ⟨rfl, ⟨rfl, rfl, rfl, rfl, fun f hf => ?_⟩, hcopy, ?_, hrc⟩
        · rcases List.mem_cons.mp hf with h | h
          · rw [h]; exact .inr ⟨rfl, rfl⟩
          · exact .inl h
        · unfold viewBuild at hv
          split_ifs at hv with h
          intro he
          exact h (List.append_eq_nil_iff.mpr ⟨he, rfl⟩)
      · next hrc =>
        left
        refine ⟨env.submitRc, _, ?_, ?_, ?_, rfl, .inr (.inr hrc)⟩
        · rfl
        · rfl
        · rfl
  · next h =>
    left
    refine ⟨.noMemory, _, ?_, ?_, ?_, rfl, .inl (by simpa using h)⟩
    · rfl
    · rfl
    · rfl

theorem runFailed_user_ledger (checkpoint : ℕ) (auto : Bool) (rc : Errno) (s : State) :
    (s.runFailed (.user checkpoint auto) rc).ledger = (s.rollback checkpoint).ledger := by
  cases auto <;> rfl

theorem returnInput_ledger (auto : Bool) (rc : Errno) (s : State) :
    (s.returnInput auto rc).ledger = s.ledger := by
  cases auto <;> rfl

theorem runFailed_compact_ledger (auto : Bool) (rc : Errno) (s : State) :
    (s.runFailed (.compact auto) rc).ledger =
      { s.ledger with sess := { s.sess with compacting := false } } := by
  cases auto <;> rfl

variable {s : State}

theorem notStarted_runFailed {u : State} (k : RunKind) (rc : Errno) (hf : u.flights = s.flights)
    (hr : u.run = s.run + 1) : NotStarted s (u.runFailed k rc) := by
  have hle : s.run ≤ u.run := by omega
  cases k with
  | user checkpoint auto | compact auto => cases auto <;> exact ⟨hf, .inr ⟨rfl, hle⟩⟩

theorem notStarted_returnInput {u : State} (auto : Bool) (rc : Errno) (hq : u.q = s.q)
    (hf : u.flights = s.flights) (hr : u.run = s.run) : NotStarted s (u.returnInput auto rc) := by
  cases auto <;> exact ⟨hf, .inl ⟨hq, hr⟩⟩

variable {msg : Message}

theorem withdrawn_ledger {u : State} {x : Session} {o : ℕ}
    (hu : u.ledger = s.noted x msg o) :
    (u.rollback x.history.length).ledger = { s.ledger with
      sess := { x with deltaEntries := x.deltaEntries + 1, overheadTokens := o }
      nextUid := s.nextUid + 1
      rolledBack := s.rolledBack ++ [s.nextUid] } := by
  have hs : u.sess = (s.noted x msg o).sess := congrArg Ledger.sess hu
  have hr : u.rolledBack = s.rolledBack := congrArg Ledger.rolledBack hu
  have hroll : (u.rollback x.history.length).ledger = { u.ledger with
      sess := { u.sess with history := u.sess.history.take x.history.length }
      rolledBack := u.rolledBack ++ (u.sess.history.drop x.history.length).map Slot.uid } := rfl
  rw [hroll, hu, hs, hr]
  simp [State.noted, userSlot]

theorem received_accept (auto : Bool) (msg : Message) (env : InputEnv) (s : State) (x : Session)
    (hg : Gated s msg.contents env x) (hb : s.busy = false)
    (hp : sessionEnforceBudget s.conf msg.contents env s.sess = .pass x) :
    Received msg env s (State.acceptInput auto msg env { s with sess := x }) := by
  have hpass : s.passed msg.contents env = some x := by
    rw [State.passed, hb, if_neg (by simp), hp]
  unfold State.acceptInput
  dsimp only
  cases ha : env.appendOk with
  | false => exact .kept x hg (by simp [hb]) (returnInput_ledger _ _ _) (notStarted_returnInput _ _ rfl rfl rfl)
  | true =>
    rw [if_neg (by simp)]
    have hwith : startFails s.conf (x.history ++ [userSlot s msg]) env = true →
        s.withdraws msg env = true := by
      intro hf
      simp [State.withdraws, hpass, ha, hf]
    have hfails : ∀ msgs, sessInputViewBuild s.conf env.memText (x.history ++ [userSlot s msg])
        env.viewOk = .ok msgs → startFails s.conf (x.history ++ [userSlot s msg]) env =
          (!env.createOk || !env.copyOk || (turnBufAppend msgs).isEmpty || env.submitRc ≠ .ok) := by
      intro msgs hv
      rw [startFails, hv]
    split
    · next rc hv =>
      have hv : sessInputViewBuild s.conf env.memText (x.history ++ [userSlot s msg]) env.viewOk =
          .error rc := hv
      refine .withdrawn x x.overheadTokens hg hpass (hwith (by rw [startFails, hv])) ?_ hb
        (notStarted_returnInput _ _ rfl rfl rfl)
      rw [returnInput_ledger]
      exact withdrawn_ledger rfl
    · next msgs hv =>
      have hf := hfails msgs hv
      split
      · next hcr =>
        refine .withdrawn x (overheadOf s.conf.systemPrompt env.memText) hg hpass
          (hwith (by rw [hf, hcr]; rfl)) ?_ hb (notStarted_returnInput _ _ rfl rfl rfl)
        rw [returnInput_ledger]
        exact withdrawn_ledger rfl
      · next hcr =>
        rcases queryRun_cases true s.conf.maxTurns (.user x.history.length auto) msgs env
          { pushHistory [.text msg.role (textOf msg.contents)] { s with sess := x } with
            sess := { (pushHistory [.text msg.role (textOf msg.contents)] { s with sess := x }).sess with
              deltaEntries := x.deltaEntries + 1
              overheadTokens := overheadOf s.conf.systemPrompt env.memText } } with
          ⟨rc, u, hu, huf, hur, he, hwhy⟩ | ⟨hl', hst, hcopy, hmsgs, hrc⟩
        · have hns : NotStarted s (u.runFailed (.user x.history.length auto) rc) :=
            notStarted_runFailed _ _ huf hur
          refine .withdrawn x (overheadOf s.conf.systemPrompt env.memText) hg hpass (hwith ?_) ?_ hb
            (he ▸ hns)
          · rw [hf]
            rcases hwhy with h | h | h
            all_goals simp [h]
          · exact (congrArg State.ledger he).trans ((runFailed_user_ledger _ _ _ _).trans
              (withdrawn_ledger hu))
        · have hacc : s.accepts msg env = true := by
            have hfalse : startFails s.conf (x.history ++ [userSlot s msg]) env = false := by
              rw [hf]
              simp [hcr, hcopy, hmsgs, hrc]
            simp [State.accepts, hpass, ha, hfalse]
          exact .accepted x _ hg hb hpass hacc hl' ⟨hst.live, hst.produced, hst.first, hst.run, hst.flights⟩

/-- **Inversion of an input.** -/
theorem received (auto : Bool) (msg : Message) (env : InputEnv) (s : State) :
    Received msg env s (s.sessionInput auto msg env) := by
  unfold State.sessionInput
  split
  · exact .kept s.sess ⟨s.sess, .inl rfl, .refl _⟩ (fun _ => rfl) (returnInput_ledger _ _ _)
      (notStarted_returnInput _ _ rfl rfl rfl)
  · next hb =>
    have hb' : s.busy = false := by simpa [State.busy] using hb
    have hc : s.sess.compacting = false := (Bool.or_eq_false_iff.mp hb').2
    have hgate := gate_session s.conf msg.contents env s.sess
    split
    · next rc x hg =>
      rw [hg] at hgate
      exact .kept x hgate (by simp [hb']) (returnInput_ledger _ _ _) (notStarted_returnInput _ _ rfl rfl rfl)
    · next x msgs hg =>
      rw [hg] at hgate
      have hxc : x.compacting = false := (Gated.compacting hgate).trans hc
      split
      · exact .kept x hgate (by simp [hb']) (returnInput_ledger _ _ _) (notStarted_returnInput _ _ rfl rfl rfl)
      · rcases queryRun_cases false 1 (.compact auto) msgs env
          { s with sess := { x with compacting := true } } with
          ⟨rc, u, hu, huf, hur, he, -⟩ | ⟨hl', hst, -⟩
        · have hns : NotStarted s (u.runFailed (.compact auto) rc) := notStarted_runFailed _ _ huf hur
          refine .kept x hgate (by simp [hb']) ?_ (he ▸ hns)
          refine (congrArg State.ledger he).trans ((runFailed_compact_ledger _ _ _).trans ?_)
          have hs : u.sess = { x with compacting := true } := congrArg Ledger.sess hu
          rw [hu, hs, ← hxc]
          rfl
        · obtain ⟨h1, h2⟩ := gate_launch hg
          exact .launched x msgs hgate hb' hg h1 h2 hl'
            ⟨hst.live, hst.produced, hst.first, hst.run, hst.flights⟩
    · next x hg =>
      rw [hg] at hgate
      exact received_accept auto msg env s x hgate hb' hg

/-! ### Inversion -/

/-- **The usage a run records is its own**: a report that would be taken for the size of a user run's
first prompt comes from a submit of that run. -/
def usageOwn (s : State) (l : Label) : Bool :=
  match l.move with
  | .done serial _ _ (some u) =>
    match s.flights.find? (fun f => f.serial = serial) with
    | none => true
    | some f => decide (f.run = s.run) || !s.q.running || s.sess.compacting || s.q.turn ≠ 1 ||
        u.promptTokens ≤ 0 || decide (0 ≤ s.q.firstRoundPromptTokens)
  | _ => true

def oneSession (l : Label) : Bool :=
  match l.move with
  | .create _ => false
  | _ => true

/-- The message a step hands to `xAgentSessionInput`, and the state it finds: the host's, or the one
saved for the retry after a compact. -/
def incoming (s : State) (l : Label) : Option (Message × State) :=
  match l.move with
  | .input msg => some (msg, s)
  | .ret =>
    match s.stack, s.sess.pendingText with
    | .compactDone :: rest, some t => some (⟨.user, [.text t]⟩,
        { s with stack := rest, sess := { s.sess with pendingText := none } })
    | _, _ => none
  | _ => none

theorem incoming_same {s₀ : State} {l : Label} (h : incoming s l = some (msg, s₀)) :
    s₀.ledger = { s.ledger with sess := { s.sess with pendingText := s₀.sess.pendingText } } ∧
      s₀.q = s.q ∧ s₀.flights = s.flights ∧ s₀.run = s.run := by
  unfold incoming at h
  split at h
  · injection h with h
    injection h with _ h
    subst h
    exact ⟨rfl, rfl, rfl, rfl⟩
  · split at h
    · injection h with h
      injection h with _ h
      subst h
      exact ⟨rfl, rfl, rfl, rfl⟩
    · exact absurd h (by simp)
  · exact absurd h (by simp)

/-- What a step does to the ledger. -/
inductive Effect (own : Prop) (s : State) (l : Label) : State → Prop
  | settles {t : State} : Settles own l.env s t → Effect own s l t
  | received {t s₀ : State} (msg : Message) : s.alive = true → incoming s l = some (msg, s₀) →
      Received msg l.env s₀ t → Effect own s l t
  | window (n : ℕ) : Effect own s l { s with sess := { s.sess with contextWindow := n } }
  | create (n : ℕ) : l.move = .create n → s.alive = false → Effect own s l (createSession n s)

theorem Quiet.pop {own : Prop} (rest : List Frame) (s : State) : Quiet own s { s with stack := rest } :=
  .of_eq rfl rfl (fun _ h => h) rfl rfl rfl (fun h => ⟨h, rfl⟩)

variable {t : State}

/-- **Inversion of a step** on the ledger. -/
theorem effect_of_step {l : Label} (hs : step s l = some t) :
    Effect (usageOwn s l = true) s l t := by
  have ht := took_of_step hs
  obtain ⟨m, env⟩ := l
  cases ht with
  | input msg ha => exact .received msg ha rfl (received false msg env s)
  | cancel _ =>
    refine .settles (.quiet ?_)
    unfold State.sessionCancel
    split
    · exact Settles.markCancel _ s
    · exact .refl s
  | resolve r d reason v _ => exact .settles (Settles.toolConfirmResolve r v d reason env s)
  | complete id out inv =>
    refine .settles (.quiet (Quiet.trans ?_ (Settles.asyncToolComplete id out _)))
    exact .of_eq rfl rfl (fun _ h => h) rfl rfl rfl (fun h => ⟨h, rfl⟩)
  | text serial chunk _ =>
    obtain ⟨_, he⟩ := onProviderText_frame s.q chunk
    rw [he]
    exact .settles (.quiet (.of_eq rfl rfl (fun _ h => h) rfl rfl rfl (fun h => ⟨h, rfl⟩)))
  | thinking serial chunk _ =>
    obtain ⟨_, he⟩ := onProviderThinking_frame s.q chunk
    rw [he]
    exact .settles (.quiet (.of_eq rfl rfl (fun _ h => h) rfl rfl rfl (fun h => ⟨h, rfl⟩)))
  | toolCall serial id name args _ =>
    obtain ⟨_, he⟩ := onProviderToolCall_frame s.q id name args
    rw [he]
    exact .settles (.quiet (.of_eq rfl rfl (fun _ h => h) rfl rfl rfl (fun h => ⟨h, rfl⟩)))
  | done serial reason err usage f hf =>
    refine .settles (Settles.onProviderDone reason err usage f.seq env ?_ ?_)
    · exact .of_eq rfl rfl (fun g hg => (List.mem_filter.mp hg).1) rfl rfl rfl (fun h => ⟨h, rfl⟩)
    · refine (Settles.usage f usage s (List.mem_of_find?_eq_some hf) ?_).trans ?_
      · rintro hown hrun hc u rfl hturn hpos hneg
        simp only [usageOwn, hf, hrun, hc, hturn, Bool.or_eq_true, decide_eq_true_eq, Bool.not_true] at hown
        simp only [ne_eq, not_true_eq_false, or_false, Bool.false_eq_true] at hown
        omega
      · exact .of_eq rfl rfl (fun g hg => (List.mem_filter.mp hg).1) rfl rfl rfl (fun h => ⟨h, rfl⟩)
  | handlerRet trc out k v inv rest _ =>
    exact .settles (Settles.after (.pop rest s) (Settles.handlerReturned k v inv trc out env _))
  | retSubmit k rest _ =>
    refine .settles (Settles.after (.pop rest s) (.quiet ?_))
    unfold submitAccepted
    split
    · exact .returnInput _ _ _
    · exact .returnInput _ _ _
    · exact .refl _
  | retConfirm i rest _ => exact .settles (Settles.after (.pop rest s) (Settles.dispatchFrom env _ _ _))
  | retToolStart k v rest _ =>
    refine .settles (.quiet ?_)
    exact .of_eq rfl rfl (fun _ h => h) rfl rfl rfl (fun h => ⟨h, rfl⟩)
  | retToolDone k rest _ => exact .settles (Settles.after (.pop rest s) (Settles.afterInvoke k env _))
  | retCompleteDone rest _ =>
    exact .settles (Settles.after (.pop rest s) (Settles.tailCheck (by simp) env _))
  | retErrFinish reason rest _ =>
    exact .settles (Settles.after (.pop rest s) (Settles.finalize reason env _))
  | retProvErr userCancel rest _ =>
    exact .settles (Settles.after (.pop rest s) (Settles.commitAndBranch _ _ env _))
  | retProvCancel k rest _ ha | retCancelTool i k rest _ ha =>
    exact .settles (Settles.after (.pop rest s) (Settles.cancelFrom k _ _ _ ha))
  | retSessDone rest _ => exact .settles (Settles.after (.pop rest s) (Settles.queryDestroy _))
  | retCompactDone rest hst ha =>
    unfold State.autoRetryPending
    split
    · exact .settles (.quiet (.pop rest s))
    · next txt hp =>
      refine .received ⟨.user, [.text txt]⟩ ha ?_ (received true _ env _)
      have hp' : s.sess.pendingText = some txt := hp
      simp only [incoming, hst, hp']
  | setContextWindow n _ => exact .window n
  | destroy _ ha => exact .settles (Settles.destroy _ s ha)
  | create n ha => exact .create n rfl ha

/-! ### What every run keeps -/

/-- A running Query is live, a session that is gone has none, and `produced_arr` holds what a run
adds. -/
structure Life (s : State) : Prop where
  live : s.q.running = true → s.q.live = true
  dead : s.alive = false → s.q.running = false
  ofRun : OfRun s

theorem Life.quiet {own : Prop} (h : Life s) (hq : Quiet own s t) : Life t := by
  refine ⟨?_, ?_, hq.produced h.ofRun⟩
  · intro hr
    obtain ⟨h1, h2⟩ := hq.running hr
    rw [h2]
    exact h.live h1
  · intro hd
    rw [hq.alive] at hd
    by_contra hr
    have hs := (hq.running (by simpa using hr)).1
    rw [h.dead hd] at hs
    exact absurd hs (by simp)

theorem endRun_query (reason : DoneReason) (env : InputEnv) (s : State) :
    (s.endRun reason env).q = {} ∨
      (s.endRun reason env).q = { s.q with running := false } := by
  unfold State.endRun State.sessFwdOnDone
  split
  · exact .inl rfl
  · exact .inr rfl

theorem Life.settles {own : Prop} {env : InputEnv} (h : Life s)
    (hs : Settles own env s t) : Life t := by
  cases hs with
  | quiet hq => exact h.quiet hq
  | ended reason hq _ =>
    have h1 := h.quiet hq
    rcases endRun_query reason env _ with he | he
    · refine ⟨?_, ?_, ?_⟩
      · rw [he]; simp
      · rw [he]; simp
      · unfold OfRun; rw [he]; simp
    · refine ⟨?_, ?_, ?_⟩
      · rw [he]; simp
      · rw [he]; simp
      · unfold OfRun; rw [he]; exact h1.ofRun
  | finished hq _ he =>
    have h1 := h.quiet hq
    refine ⟨h1.live, fun _ => ?_, h1.ofRun⟩
    exact congrArg Query.running he

theorem Life.received {env : InputEnv} (h : Life s)
    (ha : s.alive = true) (hs : Received msg env s t) : Life t := by
  have hnot : t.alive = s.alive → NotStarted s t → Life t := by
    rintro hta ⟨-, ⟨hq, -⟩ | ⟨hq, -⟩⟩
    · refine ⟨by rw [hq]; exact h.live, fun hd => ?_, ?_⟩
      · rw [hta, ha] at hd
        exact absurd hd (by simp)
      · unfold OfRun; rw [hq]; exact h.ofRun
    · refine ⟨by rw [hq]; simp, fun _ => by rw [hq], ?_⟩
      unfold OfRun; rw [hq]; simp
  have hstart : t.alive = s.alive → Started s t → Life t := by
    intro hta hst
    refine ⟨fun _ => hst.live, fun hd => ?_, ?_⟩
    · rw [hta, ha] at hd
      exact absurd hd (by simp)
    · unfold OfRun; rw [hst.produced]; simp
  cases hs with
  | kept x _ _ hl hns | withdrawn x o _ _ _ hl _ hns => exact hnot (congrArg Ledger.alive hl) hns
  | launched x _ _ _ _ _ _ hl hst | accepted x o _ _ _ _ hl hst => exact hstart (congrArg Ledger.alive hl) hst

theorem Life.incoming {s₀ : State} {l : Label} (h : Life s)
    (hi : incoming s l = some (msg, s₀)) : Life s₀ ∧ s₀.alive = s.alive := by
  obtain ⟨hl, hq, -, -⟩ := incoming_same hi
  have ha : s₀.alive = s.alive := congrArg Ledger.alive hl
  refine ⟨⟨by rw [hq]; exact h.live, fun hd => ?_, ?_⟩, ha⟩
  · rw [hq]; exact h.dead (ha.symm.trans hd)
  · unfold OfRun; rw [hq]; exact h.ofRun

theorem Life.step {l : Label} (h : Life s) (hs : step s l = some t) : Life t := by
  cases effect_of_step hs with
  | settles hset => exact h.settles hset
  | received msg ha hi hr =>
    obtain ⟨h0, ha0⟩ := h.incoming hi
    exact h0.received (ha0.trans ha) hr
  | window n => exact ⟨h.live, h.dead, h.ofRun⟩
  | create n _ hd => exact ⟨h.live, fun ha => absurd ha (by simp [createSession]), h.ofRun⟩

theorem Life.init (conf : Conf) (contextWindow : ℕ) (store : List Slot) (nextUid : ℕ) :
    Life (init conf contextWindow store nextUid) :=
  ⟨fun h => absurd h (by simp [Libx.Agent.init, createSession]), fun _ => rfl,
    fun _ h => absurd h (by simp [Libx.Agent.init, createSession])⟩

end Libx.Agent
