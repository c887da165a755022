import Libx.Agent.Confirm

/-!
# Libx.Agent.Progress — a run ends once and does not get stuck

Between two events a running Query must have something to wait for: a provider round, a tool
that has not completed, or a decision that can still be made.  A cancel that invalidates the
resolver of a waiting call, a completion that comes before its entry, and a completion that takes
another call's entry and leaves its own all break this; no other step does.
-/

namespace Libx.Agent

open Libx.Core State List

/-- **No run is stuck and none ends twice.** -/
structure Progress (s : State) : Prop where
  endsOnce : ∀ r, s.trace.countP (Obs.endOf r) ≤ 1
  waits : s.q.running = true → s.stack = [] →
    (∃ f ∈ s.flights, f.run = s.run) ∨
    (∃ a ∈ s.q.async, a.stage = .running ∧ a.inv ∉ s.delivered) ∨
    ∃ a ∈ s.q.async, a.stage = .awaitingConfirm ∧ ∃ r v, a.resolver = some r ∧
      s.resolvers[r]? = some v ∧ v.valid = true

def Frame.dispatching : Frame → Bool
  | .confirm _ => true
  | .toolStart (.dispatch _) _ => true
  | .handler (.dispatch _) _ _ => true
  | .toolDone (.dispatch _) => true
  | _ => false

/-- A frame after whose return the run is over: a reported error, or a destroy that has not
released the Query yet. -/
def Frame.ending : Frame → Bool
  | .errFinish _ => true
  | .provErr _ => true
  | .provCancel k => k ≠ .cancel
  | .cancelTool _ k => k ≠ .cancel
  | _ => false

/-- A frame after whose return the run goes on or ends. -/
def Frame.active (f : Frame) : Bool := f.ofTool || f.ending

/-- **The contract of a tool**: a completion is for an invocation with its id, and there is one. -/
def toolContract (s : State) (l : Label) : Bool :=
  match l.move with
  | .complete id _ inv => (s.calls[inv]?.map Call.id == some id) && decide (inv ∉ s.delivered)
  | _ => true

/-- A provider round of the current run is outstanding. -/
def State.awaitsRound (s : State) : Bool := s.flights.any (fun f => f.run = s.run)

/-- The Query is cancelled and will be seen to be: by the dispatch loop, or when the outstanding
round ends. -/
def State.aborting (s : State) : Bool :=
  s.q.cancelled && (s.stack.any Frame.dispatching || s.awaitsRound)

/-- The cancel loop, at index `i` and above the frames `rest`, invalidates no resolver of a run
that is not about to end. -/
def cancelKeeps (s : State) (rest : List Frame) (i : ℕ) : Bool :=
  !s.q.running || State.aborting { s with stack := rest } || rest.any Frame.ending ||
  match (s.q.async.drop i).head? with
  | none => true
  | some a => a.stage ≠ .awaitingConfirm

/-- **The condition**: a completion leaves no Running entry of its invocation behind, a handler
does not return Pending after its completion has come, and a cancel keeps the resolvers it must. -/
def keepsWaiting (s : State) (l : Label) : Bool :=
  match l.move with
  | .complete id _ inv =>
    match asyncPendingRemove id s.q.async with
    | none => true
    | some (_, rest) => rest.all (fun b => b.stage ≠ .running || b.inv ≠ inv)
  | .handlerRet trc _ =>
    match s.stack with
    | .handler _ _ inv :: _ => trc ≠ .pending || decide (inv ∉ s.delivered)
    | _ => true
  | .ret =>
    match s.stack with
    | .provCancel .cancel :: rest => cancelKeeps s rest 0
    | .cancelTool i .cancel :: rest => cancelKeeps s rest (i + 1)
    | _ => true
  | _ => true

/-! ### The books -/

/-- What the entries say about resolvers, invocations and completions. -/
structure Books (s : State) : Prop where
  asked : ∀ a ∈ s.q.async, a.stage = .awaitingConfirm → ∃ r v, a.resolver = some r ∧
    s.resolvers[r]? = some v
  ran : ∀ a ∈ s.q.async, a.stage = .running →
    a.inv ∉ s.delivered ∧ s.calls[a.inv]? = some a.call
  handlers : ∀ k v inv, .handler k v inv ∈ s.stack → s.calls[inv]? = some v.call
  ends : EndsOnce s

theorem length_of_keys {rs rs' : List Resolver}
    (hk : rs'.map Resolver.key = rs.map Resolver.key) : rs'.length = rs.length := by
  have h := congrArg List.length hk
  simpa using h

namespace Books

variable {s t : State}

theorem tail (h : Books s) (ht : Tail s t) : Books t := by
  obtain ⟨-, ha, hk, -, hc, hd, ⟨fs, hfs, hq⟩, -, he⟩ := ht
  have hmem : ∀ a ∈ t.q.async, a ∈ s.q.async := by
    intro a hm
    rcases ha with h1 | h1
    · exact h1 ▸ hm
    · rw [h1] at hm; exact absurd hm (by simp)
  refine ⟨?_, ?_, ?_, he h.ends⟩
  · intro a hm hs
    obtain ⟨r, v, h1, h2⟩ := h.asked a (hmem a hm) hs
    have hlt : r < t.resolvers.length := by
      rw [length_of_keys hk]; exact (List.getElem?_eq_some_iff.mp h2).1
    exact ⟨r, _, h1, List.getElem?_eq_getElem hlt⟩
  · intro a hm hs
    rw [hc, hd]
    exact h.ran a (hmem a hm) hs
  · intro k v inv hm
    rw [hc]
    rw [hfs] at hm
    rcases mem_append.mp hm with h1 | h1
    · exact absurd (hq _ h1) (by simp [Frame.ofTool])
    · exact h.handlers k v inv h1

theorem shrink (h : Books s) (ha : ∀ a ∈ t.q.async, a ∈ s.q.async)
    (hr : t.resolvers.length = s.resolvers.length) (hl : t.calls = s.calls)
    (hd : t.delivered = s.delivered) (hk : ∀ f ∈ t.stack, f ∈ s.stack ∨ f.ofTool = false ∨
      f = .completeDone ∨ (∃ k, f = .toolDone k) ∨ ∃ k v, f = .toolStart k v)
    (ht : ∀ r, t.trace.countP (Obs.endOf r) = s.trace.countP (Obs.endOf r)) (hn : t.run = s.run)
    (hg : t.q.running = true → s.q.running = true) : Books t := by
  refine ⟨?_, ?_, ?_, h.ends.mono ht hn.ge (fun h1 => .inr ⟨hn, hg h1⟩)⟩
  · intro a hm hs
    obtain ⟨r, v, h1, h2⟩ := h.asked a (ha a hm) hs
    have hlt : r < t.resolvers.length := by
      rw [hr]; exact (List.getElem?_eq_some_iff.mp h2).1
    exact ⟨r, _, h1, List.getElem?_eq_getElem hlt⟩
  · intro a hm hs
    rw [hl, hd]
    exact h.ran a (ha a hm) hs
  · intro k v inv hm
    rw [hl]
    rcases hk _ hm with h1 | h1 | h1 | ⟨k', h1⟩ | ⟨k', v', h1⟩
    · exact h.handlers k v inv h1
    · exact absurd h1 (by simp [Frame.ofTool])
    all_goals exact absurd h1 (by simp)

theorem of_eq (h : Books s) (ha : t.q.async = s.q.async) (hr : t.resolvers = s.resolvers)
    (hl : t.calls = s.calls) (hd : t.delivered = s.delivered) (hk : t.stack = s.stack)
    (ht : t.trace = s.trace) (hn : t.run = s.run) (hg : t.q.running = true → s.q.running = true) :
    Books t :=
  h.shrink (fun _ hm => ha ▸ hm) (by rw [hr]) hl hd (fun _ hm => .inl (hk ▸ hm))
    (fun _ => by rw [ht]) hn hg

variable {rest : List Frame}

theorem pop {f : Frame} (h : Books s) (hs : s.stack = f :: rest) :
    Books { s with stack := rest } :=
  h.shrink (fun _ hm => hm) rfl rfl rfl
    (fun _ hm => .inl (by rw [hs]; exact mem_cons_of_mem _ hm)) (fun _ => rfl) rfl id

theorem push {f : Frame} (h : Books s) (hf : f.ofTool = false ∨ f = .completeDone ∨
    (∃ k, f = .toolDone k) ∨ ∃ k v, f = .toolStart k v) : Books (s.push f) := by
  refine h.shrink (fun _ hm => hm) rfl rfl rfl (fun g hm => ?_) (fun _ => rfl) rfl id
  rcases mem_cons.mp hm with h1 | h1
  · exact .inr (h1 ▸ hf)
  · exact .inl h1

theorem askConfirm (h : Books s) (i : ℕ) (t : Tool) (c : Call) : Books (s.askConfirm i t c) := by
  refine ⟨?_, ?_, ?_, ?_⟩
  · intro a ha hs
    rcases mem_append.mp ha with h1 | h1
    · obtain ⟨r, v, h2, h3⟩ := h.asked a h1 hs
      have hlt := (List.getElem?_eq_some_iff.mp h3).1
      exact ⟨r, v, h2, by rw [← h3]; exact List.getElem?_append_left hlt⟩
    · rw [mem_singleton] at h1
      subst h1
      exact ⟨_, _, rfl, List.getElem?_concat_length⟩
  · intro a ha hs
    rcases mem_append.mp ha with h1 | h1
    · exact h.ran a h1 hs
    · rw [mem_singleton] at h1
      subst h1
      exact absurd hs (by simp)
  · intro k v inv hm
    rcases mem_cons.mp hm with h1 | h1
    · exact absurd h1 (by simp)
    · exact h.handlers k v inv h1
  · refine h.ends.mono (fun r => ?_) le_rfl (fun h1 => .inr ⟨rfl, h1⟩)
    exact countP_cons_of_neg (by simp [Obs.endOf])

theorem callHandler (h : Books s) (k : InvokeKind) (v : Invocation) : Books (s.callHandler k v) := by
  have hold : ∀ {n : ℕ} {c : Call}, s.calls[n]? = some c → (s.calls ++ [v.call])[n]? = some c :=
    fun {n c} hn => by
      rw [← hn]; exact List.getElem?_append_left (List.getElem?_eq_some_iff.mp hn).1
  refine ⟨h.asked, ?_, ?_, ?_⟩
  · intro a ha hs
    obtain ⟨h1, h2⟩ := h.ran a ha hs
    exact ⟨h1, hold h2⟩
  · intro k' v' inv hm
    rcases mem_cons.mp hm with h1 | h1
    · injection h1 with _ h1 h2
      subst h1 h2
      exact List.getElem?_concat_length
    · exact hold (h.handlers k' v' inv h1)
  · refine h.ends.mono (fun r => ?_) le_rfl (fun h1 => .inr ⟨rfl, h1⟩)
    exact countP_cons_of_neg (by simp [Obs.endOf])

theorem pended {k : InvokeKind} {v : Invocation} {inv : ℕ} (h : Books s)
    (hs : s.stack = .handler k v inv :: rest) (hd : inv ∉ s.delivered) :
    Books { s with
      stack := rest
      q := { s.q with async := s.q.async ++ [⟨v.tool, v.call, .running, none, inv⟩] } } := by
  refine ⟨?_, ?_, (h.pop hs).handlers, ?_⟩
  · intro a ha hst
    rcases mem_append.mp ha with h1 | h1
    · exact h.asked a h1 hst
    · rw [mem_singleton] at h1
      subst h1
      exact absurd hst (by simp)
  · intro a ha hst
    rcases mem_append.mp ha with h1 | h1
    · exact h.ran a h1 hst
    · rw [mem_singleton] at h1
      subst h1
      exact ⟨hd, h.handlers k v inv (by rw [hs]; exact mem_cons_self)⟩
  · exact h.ends.mono (fun _ => rfl) le_rfl (fun h1 => .inr ⟨rfl, h1⟩)

theorem toolConfirmResolve (h : Books s) (r : ℕ) (v : Resolver) (d : Decision) (reason : Bytes)
    (env : InputEnv) : Books (s.toolConfirmResolve r v d reason env) := by
  have hset : (s.resolvers.set r { v with done := true }).length = s.resolvers.length :=
    List.length_set
  have hcount : ∀ r', (Obs.decided r d :: s.trace).countP (Obs.endOf r') =
      s.trace.countP (Obs.endOf r') := fun _ => countP_cons_of_neg (by simp [Obs.endOf])
  have hdone : Books
      ({ s with resolvers := s.resolvers.set r { v with done := true } }.emit (.decided r d)) :=
    h.shrink (fun _ hm => hm) hset rfl rfl (fun _ hm => .inl hm) hcount rfl id
  unfold State.toolConfirmResolve
  split
  · exact h
  · dsimp only
    split
    · exact hdone
    · split
      · exact hdone
      · next a rest hrem =>
        have hsub : ∀ b ∈ rest, b ∈ s.q.async := (asyncPendingRemove_mem hrem).2
        cases d with
        | reject =>
          rw [append_eq]
          refine tail ?_ (Tail.tailCheck _ env _)
          exact h.shrink hsub hset rfl rfl (fun _ hm => .inl hm) hcount rfl id
        | allow =>
          refine push ?_ (.inr (.inr (.inr ⟨_, _, rfl⟩)))
          exact h.shrink hsub hset rfl rfl (fun _ hm => .inl hm) hcount rfl id

theorem asyncToolComplete (h : Books s) {id : Bytes} {inv : ℕ} {c : Call} (out : ToolOut)
    (hcall : s.calls[inv]? = some c) (hid : c.id = id)
    (hown : ∀ a rest, asyncPendingRemove id s.q.async = some (a, rest) →
      ∀ b ∈ rest, b.stage = .running → b.inv ≠ inv) :
    Books (State.asyncToolComplete id out { s with delivered := inv :: s.delivered }) := by
  have hdel : ∀ as : List AsyncTool, (∀ b ∈ as, b ∈ s.q.async) →
      (∀ b ∈ as, b.stage = .running → b.inv ≠ inv) →
      Books { s with delivered := inv :: s.delivered, q := { s.q with async := as } } := by
    intro as hsub hne
    refine ⟨fun b hb => h.asked b (hsub b hb), ?_, h.handlers,
      h.ends.mono (fun _ => rfl) le_rfl (fun h1 => .inr ⟨rfl, h1⟩)⟩
    intro b hb hst
    obtain ⟨h1, h2⟩ := h.ran b (hsub b hb) hst
    exact ⟨fun hm => (mem_cons.mp hm).elim (hne b hb hst) h1, h2⟩
  unfold State.asyncToolComplete
  split
  · next hnone =>
    -- an entry of this invocation would have its id
    refine hdel s.q.async (fun _ hm => hm) ?_
    intro b hb hst hi
    have hc := (h.ran b hb hst).2
    rw [hi, hcall] at hc
    injection hc with hc
    exact asyncPendingRemove_none.mp hnone b hb (by rw [← hc]; exact hid)
  · next a rest hrem =>
    rw [append_eq]
    refine push ?_ (.inr (.inl rfl))
    have h1 := hdel rest (asyncPendingRemove_mem hrem).2 (hown a rest hrem)
    exact h1.of_eq rfl rfl rfl rfl rfl rfl rfl (fun h2 => h2)

theorem dispatchFrom (env : InputEnv) : ∀ (cs : List Call) (i : ℕ) {s : State}, Books s →
    Books (s.dispatchFrom env cs i)
  | [], _, _, h => h.tail (Tail.afterDispatch env _)
  | c :: cs, i, s, h => by
    unfold State.dispatchFrom
    split
    · exact h.tail (Tail.afterDispatch env _)
    · split
      · rw [append_eq]
        exact dispatchFrom env cs (i + 1) (h.of_eq rfl rfl rfl rfl rfl rfl rfl id)
      · split
        · exact h.askConfirm i _ c
        · exact h.push (.inr (.inr (.inr ⟨_, _, rfl⟩)))

theorem afterInvoke (h : Books s) (k : InvokeKind) (env : InputEnv) : Books (s.afterInvoke k env) := by
  cases k with
  | dispatch i => exact dispatchFrom env _ _ h
  | allow r => exact h.tail (Tail.tailCheck _ _ _)

theorem commitAndBranch (h : Books s) (reason : ProviderStop) (userCancel : Bool) (env : InputEnv) :
    Books (s.commitAndBranch reason userCancel env) := by
  obtain ⟨p, he⟩ := append_frame s.q (assistantTurn s.q)
  unfold State.commitAndBranch commitAssistantTurn
  rw [he]
  have h1 : Books { s with q := { s.q with produced := p } } :=
    h.of_eq rfl rfl rfl rfl rfl rfl rfl id
  dsimp only
  split
  · unfold State.toolLoop
    split
    · exact h1.tail (Tail.finalize _ _ _)
    · exact dispatchFrom env _ _ h1
  · exact h1.tail (Tail.finalize _ _ _)

theorem onProviderDone (h : Books s) (reason : ProviderStop) (err : Errno) (usage : Option Usage)
    (seq : ℕ) (env : InputEnv) : Books (s.onProviderDone reason err usage seq env) := by
  obtain ⟨_, _, _, _, he⟩ := usageAccumulate_frame s.q usage seq
  unfold State.onProviderDone
  rw [he]
  split
  · exact h
  · split
    · refine push ?_ (.inl rfl)
      exact h.of_eq rfl rfl rfl rfl rfl rfl rfl id
    · refine commitAndBranch ?_ _ _ env
      exact h.of_eq rfl rfl rfl rfl rfl rfl rfl id

theorem handlerReturned {k : InvokeKind} {v : Invocation} {inv : ℕ} (h : Books s)
    (hs : s.stack = .handler k v inv :: rest) (trc : Errno) (out : ToolOut) (env : InputEnv)
    (hd : trc = .pending → inv ∉ s.delivered) :
    Books (State.handlerReturned k v inv trc out env { s with stack := rest }) := by
  unfold State.handlerReturned
  split
  · exact h.pop hs
  · split
    · next hp => exact (h.pended hs (hd hp)).afterInvoke k env
    · obtain ⟨_, he⟩ := append_frame s.q [resultOf v.call.id trc out]
      rw [he]
      refine push ?_ (.inr (.inr (.inl ⟨_, rfl⟩)))
      exact (h.pop hs).of_eq rfl rfl rfl rfl rfl rfl rfl id

end Books

/-! ### What a running Query waits for -/

/-- Every waiting call can be decided, or the run is about to end: `aborts` holds, or a frame ends
it. -/
def Answerable (s : State) (aborts : Prop) : Prop :=
  ∀ a ∈ s.q.async, a.stage = .awaitingConfirm → ∀ r v, a.resolver = some r →
    s.resolvers[r]? = some v → v.valid = true ∨ aborts ∨ s.stack.any Frame.ending = true

/-- What holds of a running Query. -/
structure Ready (s : State) : Prop where
  live : s.q.running = true → s.q.live = true
  answerable : s.q.running = true → Answerable s (s.aborting = true)
  waits : s.q.running = true →
    s.awaitsRound = true ∨ s.q.async ≠ [] ∨ s.stack.any Frame.active = true

variable {s : State} {p : Prop}

theorem Answerable.shrink {t : State} {p' : Prop} (h : Answerable s p)
    (ha : ∀ a ∈ t.q.async, a ∈ s.q.async)
    (hr : ∀ (r : ℕ) (v' : Resolver), t.resolvers[r]? = some v' →
      ∃ v, s.resolvers[r]? = some v ∧ v'.valid = v.valid)
    (hp : p → p') (hd : s.stack.any Frame.ending = true → t.stack.any Frame.ending = true) :
    Answerable t p' := by
  intro a hm hst r v' h1 h2
  obtain ⟨v, hv, he⟩ := hr r v' h2
  rcases h a (ha a hm) hst r v h1 hv with h3 | h3 | h3
  · exact .inl (he.trans h3)
  · exact .inr (.inl (hp h3))
  · exact .inr (.inr (hd h3))

theorem Answerable.mono {t : State} {p' : Prop} (h : Answerable s p)
    (ha : t.q.async = s.q.async) (hr : t.resolvers = s.resolvers) (hp : p → p')
    (hd : s.stack.any Frame.ending = true → t.stack.any Frame.ending = true) :
    Answerable t p' :=
  h.shrink (fun _ hm => ha ▸ hm) (fun _ v' hv => ⟨v', hr ▸ hv, rfl⟩) hp hd

theorem aborting_mono {t : State} (hc : s.q.cancelled = true → t.q.cancelled = true)
    (hk : s.stack.any Frame.dispatching = true → t.stack.any Frame.dispatching = true)
    (hf : s.awaitsRound = true → t.awaitsRound = true) (h : s.aborting = true) :
    t.aborting = true := by
  unfold State.aborting at h ⊢
  rw [Bool.and_eq_true, Bool.or_eq_true] at h ⊢
  exact ⟨hc h.1, h.2.imp hk hf⟩

theorem aborting_cancelled (h : s.aborting = true) : s.q.cancelled = true := by
  unfold State.aborting at h
  rw [Bool.and_eq_true] at h
  exact h.1

theorem Answerable.push (h : Answerable s (s.aborting = true)) (f : Frame) :
    Answerable (s.push f) ((s.push f).aborting = true) :=
  h.mono rfl rfl (aborting_mono id (fun h1 => by simp [State.push, h1]) id)
    (fun h1 => by simp [State.push, h1])

theorem Answerable.of_ending (h : s.stack.any Frame.ending = true) :
    Answerable s p := fun _ _ _ _ _ _ _ => .inr (.inr h)

theorem Answerable.of_nil (h : s.q.async = []) : Answerable s p := by
  intro a hm
  rw [h] at hm
  exact absurd hm (by simp)

namespace Ready

variable {s t : State}

theorem of_idle (h : s.q.running = false) : Ready s :=
  ⟨fun h1 => absurd h1 (by simp [h]), fun h1 => absurd h1 (by simp [h]),
    fun h1 => absurd h1 (by simp [h])⟩

theorem of_active (hl : s.q.running = true → s.q.live = true)
    (ha : s.q.running = true → Answerable s (s.aborting = true)) (hk : s.stack.any Frame.active = true) :
    Ready s :=
  ⟨hl, ha, fun _ => .inr (.inr hk)⟩

theorem of_eq (h : Ready s) (hq : t.q.running = s.q.running) (hl : t.q.live = s.q.live)
    (ha : t.q.async = s.q.async) (hc : s.q.cancelled = true → t.q.cancelled = true)
    (hr : t.resolvers = s.resolvers) (hf : t.flights = s.flights) (hn : t.run = s.run)
    (hk : ∀ p : Frame → Bool, (p = Frame.ending ∨ p = Frame.dispatching ∨ p = Frame.active) →
      s.stack.any p = true → t.stack.any p = true) : Ready t := by
  have hw : s.awaitsRound = true → t.awaitsRound = true := by
    unfold State.awaitsRound; rw [hf, hn]; exact id
  refine ⟨fun h1 => by rw [hl]; exact h.live (hq ▸ h1), ?_, ?_⟩
  · intro h1
    exact (h.answerable (hq ▸ h1)).mono ha hr (aborting_mono hc (hk _ (.inr (.inl rfl))) hw)
      (hk _ (.inl rfl))
  · intro h1
    rw [ha]
    rcases h.waits (hq ▸ h1) with h2 | h2 | h2
    · exact .inl (hw h2)
    · exact .inr (.inl h2)
    · exact .inr (.inr (hk _ (.inr (.inr rfl)) h2))

theorem returnInput (h : Ready s) (auto : Bool) (rc : Errno) : Ready (s.returnInput auto rc) :=
  h.of_eq rfl rfl rfl id rfl rfl rfl (fun _ _ h => h)

theorem push (h : Ready s) (f : Frame) : Ready (s.push f) :=
  h.of_eq rfl rfl rfl id rfl rfl rfl (fun p _ h1 => by simp [State.push, h1])

variable {rest : List Frame}

theorem pop {f : Frame} (h : Ready s) (hs : s.stack = f :: rest)
    (h1 : f.active = false) : Ready { s with stack := rest } := by
  have h2 : f.ofTool = false ∧ f.ending = false := by simpa [Frame.active] using h1
  have h3 : f.dispatching = false := by
    cases f <;> first | rfl | exact absurd h2.1 (by simp [Frame.ofTool])
  refine h.of_eq rfl rfl rfl id rfl rfl rfl (fun p hp hany => ?_)
  rw [hs, any_cons] at hany
  rcases hp with rfl | rfl | rfl
  · simpa [h2.2] using hany
  · simpa [h3] using hany
  · simpa [h1] using hany

theorem runFailed (k : RunKind) (rc : Errno) (s : State) : (s.runFailed k rc).q.running = false := by
  cases k <;> rfl

theorem finalize (reason : DoneReason) (env : InputEnv) (s : State) :
    (s.finalize reason env).q.running = false := by
  unfold State.finalize
  split
  · unfold State.sessFwdOnDone
    split
    · rfl
    · rfl
  · next h => simpa using h

theorem submitFailed (k : SubmitKind) (rc : Errno) (hl : s.q.running = true → s.q.live = true)
    (ha : s.q.async = []) : Ready (s.submitFailed k rc) := by
  have hpush : Ready (s.push (.errFinish .modelError)) :=
    of_active hl (fun _ => Answerable.of_nil ha) rfl
  cases k with
  | run k => exact of_idle (runFailed k rc s)
  | _ => exact hpush

theorem submitRound (k : SubmitKind) (env : InputEnv) (hl : s.q.running = true → s.q.live = true)
    (ha : s.q.async = []) : Ready (s.submitRound k env) := by
  unfold State.submitRound
  cases viewBuild s.q.inputs s.q.produced with
  | error rc => exact submitFailed k rc hl ha
  | ok msgs =>
    dsimp only
    split
    · refine ⟨hl, fun _ => Answerable.of_nil ha, fun _ => .inl ?_⟩
      simp [State.awaitsRound, State.prepareRound]
    · exact submitFailed (s := s.prepareRound msgs) k _ hl ha

theorem launch (user : Bool) (maxTurns : ℤ) (k : RunKind) (msgs : List Message) (env : InputEnv)
    (s : State) : Ready ((s.create user maxTurns).queryRun k msgs env) := by
  unfold State.queryRun
  split
  · exact submitRound _ env (fun _ => rfl) rfl
  · exact of_idle (runFailed _ _ _)

theorem acceptInput (auto : Bool) (msg : Message) (env : InputEnv) (hi : s.q.running = false) :
    Ready (s.acceptInput auto msg env) := by
  unfold State.acceptInput
  dsimp only
  split
  · exact (of_idle hi).returnInput _ _
  · split
    · exact of_idle hi
    · split
      · exact of_idle hi
      · exact launch _ _ _ _ _ _

theorem sessionInput (h : Ready s) (auto : Bool) (msg : Message) (env : InputEnv) :
    Ready (s.sessionInput auto msg env) := by
  unfold State.sessionInput
  split
  · exact h.returnInput _ _
  · next hb =>
    have hi : s.q.running = false := by
      by_contra hr
      exact hb (by rw [h.live (by simpa using hr)]; rfl)
    split
    · exact of_idle hi
    · split
      · exact of_idle hi
      · exact launch _ _ _ _ _ _
    · exact acceptInput _ _ _ hi

theorem autoRetryPending (h : Ready s) (env : InputEnv) : Ready (s.autoRetryPending env) := by
  unfold State.autoRetryPending
  split
  · exact h
  · refine sessionInput (s := { s with sess := { s.sess with pendingText := none } }) ?_ _ _ _
    exact h.of_eq rfl rfl rfl id rfl rfl rfl (fun _ _ h => h)

theorem tailCheck (k : SubmitKind) (env : InputEnv) (hl : s.q.running = true → s.q.live = true)
    (ha : s.q.running = true → Answerable s (s.aborting = true)) : Ready (s.tailCheck k env) := by
  unfold State.tailCheck
  split
  · next h0 =>
    split
    · exact of_idle (finalize _ _ _)
    · exact submitRound k env hl h0
  · next h0 => exact ⟨hl, ha, fun _ => .inr (.inl h0)⟩

theorem afterDispatch (env : InputEnv) (hl : s.q.running = true → s.q.live = true)
    (ha : s.q.running = true → Answerable s (s.q.cancelled = true)) :
    Ready (s.afterDispatch env) := by
  unfold State.afterDispatch
  dsimp only
  split
  · exact of_idle (finalize _ _ _)
  · next hc =>
    split
    · next h0 =>
      refine ⟨hl, fun h1 => ?_, fun _ => .inr (.inl h0)⟩
      exact (ha h1).mono rfl rfl (fun h2 => absurd h2 hc) id
    · next h0 => exact submitRound _ env hl (by simpa using h0)

theorem askConfirm (i : ℕ) (t : Tool) (c : Call) (hl : s.q.running = true → s.q.live = true)
    (hb : Books s) (ha : s.q.running = true → Answerable s (s.aborting = true)) :
    Ready (s.askConfirm i t c) := by
  refine of_active hl (fun h1 => ?_) rfl
  intro a hm hst r v hr hv
  rcases mem_append.mp hm with h2 | h2
  · have hv' : s.resolvers[r]? = some v := by
      obtain ⟨r', w, h3, h4⟩ := hb.asked a h2 hst
      rw [hr] at h3
      injection h3 with h3
      subst h3
      rw [← hv]
      exact (List.getElem?_append_left (List.getElem?_eq_some_iff.mp h4).1).symm
    rcases ha h1 a h2 hst r v hr hv' with h3 | h3 | h3
    · exact .inl h3
    · have h4 : (s.askConfirm i t c).aborting = true :=
        aborting_mono (s := s) id (fun h4 => by simp [State.askConfirm, h4]) id h3
      exact .inr (.inl h4)
    · exact .inr (.inr (by simp [State.askConfirm, h3]))
  · rw [mem_singleton] at h2
    subst h2
    injection hr with hr
    subst hr
    have hlast : (s.askConfirm i t c).resolvers[s.resolvers.length]? = some ⟨true, c.id, false⟩ :=
      List.getElem?_concat_length
    rw [hlast] at hv
    injection hv with hv
    subst hv
    exact .inl rfl

theorem dispatchFrom (env : InputEnv) : ∀ (cs : List Call) (i : ℕ) (s : State), Books s →
    (s.q.running = true → s.q.live = true) →
    (s.q.running = true → Answerable s (s.q.cancelled = true)) → Ready (s.dispatchFrom env cs i)
  | [], _, _, _, hl, ha => afterDispatch env hl ha
  | c :: cs, i, s, hb, hl, ha => by
    unfold State.dispatchFrom
    split
    · exact afterDispatch env hl ha
    · next hc =>
      have ha' : s.q.running = true → Answerable s (s.aborting = true) := fun h1 =>
        (ha h1).mono rfl rfl (fun h2 => absurd h2 hc) id
      split
      · rw [append_eq]
        refine dispatchFrom env cs (i + 1) _ ?_ hl ?_
        · exact hb.of_eq rfl rfl rfl rfl rfl rfl rfl id
        · intro h1
          exact (ha h1).mono rfl rfl id id
      · split
        · exact askConfirm i _ c hl hb ha'
        · exact of_active hl (fun h1 => (ha' h1).push _) rfl

theorem dispatchLoop (i : ℕ) (env : InputEnv) (hb : Books s)
    (hl : s.q.running = true → s.q.live = true)
    (ha : s.q.running = true → Answerable s (s.q.cancelled = true)) : Ready (s.dispatchLoop i env) :=
  dispatchFrom env _ i s hb hl ha

theorem commitAndBranch (reason : ProviderStop) (userCancel : Bool) (env : InputEnv) (hb : Books s)
    (hl : s.q.running = true → s.q.live = true)
    (ha : s.q.running = true → Answerable s (s.q.cancelled = true)) :
    Ready (s.commitAndBranch reason userCancel env) := by
  obtain ⟨_, he⟩ := append_frame s.q (assistantTurn s.q)
  unfold State.commitAndBranch commitAssistantTurn
  rw [he]
  dsimp only
  split
  · unfold State.toolLoop
    split
    · exact of_idle (finalize _ _ _)
    · refine dispatchLoop 0 env ?_ hl ?_
      · exact hb.of_eq rfl rfl rfl rfl rfl rfl rfl id
      · intro h1; exact (ha h1).mono rfl rfl id id
  · exact of_idle (finalize _ _ _)

theorem onProviderDone (reason : ProviderStop) (err : Errno) (usage : Option Usage) (seq : ℕ)
    (env : InputEnv) (hb : Books s) (hl : s.q.running = true → s.q.live = true)
    (ha : s.q.running = true → Answerable s (s.q.cancelled = true)) :
    Ready (s.onProviderDone reason err usage seq env) := by
  obtain ⟨_, _, _, _, he⟩ := usageAccumulate_frame s.q usage seq
  unfold State.onProviderDone
  rw [he]
  split
  · next h => exact of_idle (by simpa using h)
  · split
    · exact of_active hl (fun _ => Answerable.of_ending rfl) rfl
    · refine commitAndBranch _ _ env ?_ hl ?_
      · exact hb.of_eq rfl rfl rfl rfl rfl rfl rfl id
      · intro h1; exact (ha h1).mono rfl rfl id id

theorem valid_of_set {rs : List Resolver} {r : ℕ} {v : Resolver} (hv : rs[r]? = some v) (r' : ℕ)
    (v' : Resolver) (h : (rs.set r { v with done := true })[r']? = some v') :
    ∃ w, rs[r']? = some w ∧ v'.valid = w.valid := by
  by_cases he : r' = r
  · subst he
    have hlt : r' < rs.length := (List.getElem?_eq_some_iff.mp hv).1
    rw [List.getElem?_set_self hlt] at h
    injection h with h
    exact ⟨v, hv, by rw [← h]⟩
  · rw [List.getElem?_set_ne (Ne.symm he)] at h
    exact ⟨v', h, rfl⟩

theorem toolConfirmResolve (h : Ready s) (r : ℕ) (v : Resolver) (d : Decision) (reason : Bytes)
    (env : InputEnv) (hv : s.resolvers[r]? = some v) :
    Ready (s.toolConfirmResolve r v d reason env) := by
  have hset := valid_of_set hv
  have hdone : Ready
      ({ s with resolvers := s.resolvers.set r { v with done := true } }.emit (.decided r d)) :=
    ⟨h.live, fun h1 => (h.answerable h1).shrink (fun _ hm => hm) hset id id, h.waits⟩
  unfold State.toolConfirmResolve
  split
  · exact h
  · dsimp only
    split
    · exact hdone
    · split
      · exact hdone
      · next a rest hrem =>
        have hsub : ∀ b ∈ rest, b ∈ s.q.async := (asyncPendingRemove_mem hrem).2
        cases d with
        | reject =>
          rw [append_eq]
          refine tailCheck _ env h.live (fun h1 => ?_)
          exact (h.answerable h1).shrink hsub hset id id
        | allow =>
          refine of_active h.live (fun h1 => Answerable.push ?_ _) rfl
          exact (h.answerable h1).shrink hsub hset id id

theorem cancelFrom_destroy {k : CancelKind} (hk : k ≠ .cancel) : ∀ (as : List AsyncTool) (i : ℕ)
    (s : State), (s.q.running = true → s.q.live = true) → Ready (s.cancelFrom k as i)
  | [], _, s, _ => by
    cases k with
    | cancel => exact absurd rfl hk
    | queryDestroy | sessionDestroy => exact of_idle rfl
  | a :: as, i, s, hl => by
    unfold State.cancelFrom
    cases a.stage with
    | awaitingConfirm => exact cancelFrom_destroy hk as (i + 1) _ hl
    | running =>
      have he : (s.push (.cancelTool i k)).stack.any Frame.ending = true := by
        simp [State.push, Frame.ending, hk]
      refine of_active hl (fun _ => Answerable.of_ending he) ?_
      simp [State.push, Frame.active, Frame.ending, hk]

theorem cancelFrom_keeps : ∀ (as : List AsyncTool) (i : ℕ) (s : State), Ready s →
    (s.q.running = true → s.aborting = true ∨ s.stack.any Frame.ending = true ∨
      ∀ a ∈ as.head?, a.stage ≠ .awaitingConfirm) → Ready (s.cancelFrom .cancel as i)
  | [], _, _, h, _ => h
  | a :: as, i, s, h, hk => by
    unfold State.cancelFrom
    cases hst : a.stage with
    | awaitingConfirm =>
      have hk' : s.q.running = true → s.aborting = true ∨ s.stack.any Frame.ending = true := by
        intro h1
        rcases hk h1 with h2 | h2 | h2
        · exact .inl h2
        · exact .inr h2
        · exact absurd hst (h2 a rfl)
      refine cancelFrom_keeps as (i + 1) _ ⟨h.live, fun h1 => ?_, h.waits⟩
        (fun h1 => (hk' h1).imp id .inl)
      intro b _ _ r v _ _
      exact .inr (hk' h1)
    | running => exact h.push _

theorem cancelLoop (h : Ready s) {i : ℕ} (hs : s.stack = rest)
    (hok : cancelKeeps s rest i = true) : Ready (s.cancelLoop .cancel i) := by
  subst hs
  refine cancelFrom_keeps _ i s h (fun h1 => ?_)
  unfold cancelKeeps at hok
  rw [h1, Bool.not_true, Bool.false_or, Bool.or_eq_true, Bool.or_eq_true] at hok
  rcases hok with (h2 | h2) | h2
  · exact .inl h2
  · exact .inr (.inl h2)
  · right; right
    intro a ha
    rw [Option.mem_def] at ha
    simpa [ha] using h2

theorem destroy (h : Ready s) {k : CancelKind} (hk : k ≠ .cancel) : Ready (State.destroy k s) := by
  unfold State.destroy
  split
  · have he : (s.markCancel k).stack.any Frame.ending = true := by
      simp [State.markCancel, State.push, Frame.ending, hk]
    refine of_active h.live (fun _ => Answerable.of_ending he) ?_
    simp [State.markCancel, State.push, Frame.active, Frame.ending, hk]
  · cases k with
    | cancel => exact absurd rfl hk
    | queryDestroy | sessionDestroy => exact of_idle rfl

theorem cancelled (h : Ready s) : Ready { s with q := { s.q with cancelled := true } } :=
  h.of_eq rfl rfl rfl (fun _ => rfl) rfl rfl rfl (fun _ _ h => h)

theorem answerable_pop {f : Frame} (h : Ready s)
    (hs : s.stack = f :: rest) (h1 : f.ending = false) (hp : s.aborting = true → p)
    (hrun : s.q.running = true) : Answerable { s with stack := rest } p := by
  refine (h.answerable hrun).mono rfl rfl hp (fun h2 => ?_)
  rw [hs, any_cons, h1, Bool.false_or] at h2
  exact h2

theorem aborting_pop {f : Frame} (hs : s.stack = f :: rest)
    (h1 : f.dispatching = false) (h : s.aborting = true) :
    State.aborting { s with stack := rest } = true := by
  refine aborting_mono (s := s) id (fun h2 => ?_) id h
  rw [hs, any_cons, h1, Bool.false_or] at h2
  exact h2

theorem afterInvoke (k : InvokeKind) (env : InputEnv) (hb : Books s)
    (hl : s.q.running = true → s.q.live = true)
    (ha : s.q.running = true → Answerable s (s.aborting = true ∨
      (∃ i, k = .dispatch i) ∧ s.q.cancelled = true)) : Ready (s.afterInvoke k env) := by
  cases k with
  | dispatch i =>
    refine dispatchLoop (i + 1) env hb hl (fun h1 => ?_)
    exact (ha h1).mono rfl rfl (fun h2 => h2.elim aborting_cancelled (fun h3 => h3.2)) id
  | allow r =>
    refine tailCheck .allow env hl (fun h1 => ?_)
    refine (ha h1).mono rfl rfl (fun h2 => h2.elim id ?_) id
    rintro ⟨⟨i, hi⟩, -⟩
    exact absurd hi (by simp)

theorem invoke_pop {f : Frame} {k : InvokeKind} (h : Ready s)
    (hs : s.stack = f :: rest) (he : f.ending = false)
    (hf : f.dispatching = true → ∃ i, k = .dispatch i) (hrun : s.q.running = true) :
    Answerable { s with stack := rest } (State.aborting { s with stack := rest } = true ∨
      (∃ i, k = .dispatch i) ∧ s.q.cancelled = true) := by
  refine h.answerable_pop hs he (fun h1 => ?_) hrun
  by_cases hd : f.dispatching = true
  · exact .inr ⟨hf hd, aborting_cancelled h1⟩
  · exact .inl (aborting_pop hs (by simpa using hd) h1)

theorem handlerReturned {k : InvokeKind} {v : Invocation} {inv : ℕ} (h : Ready s)
    (hb : Books s) (hs : s.stack = .handler k v inv :: rest) (trc : Errno) (out : ToolOut)
    (env : InputEnv) (hd : trc = .pending → inv ∉ s.delivered) :
    Ready (State.handlerReturned k v inv trc out env { s with stack := rest }) := by
  have ha := h.invoke_pop (k := k) hs rfl (by
    intro hf
    cases k with
    | dispatch i => exact ⟨i, rfl⟩
    | allow r => exact absurd hf (by simp [Frame.dispatching]))
  unfold State.handlerReturned
  split
  · next hl =>
    refine of_idle ?_
    by_contra hr
    exact absurd (h.live (by simpa using hr)) (by simpa using hl)
  · split
    · next hp =>
      refine afterInvoke k env (hb.pended hs (hd hp)) h.live (fun h1 => ?_)
      intro a hm hst r w hr hw
      rcases mem_append.mp hm with h2 | h2
      · exact ha h1 a h2 hst r w hr hw
      · rw [mem_singleton] at h2
        subst h2
        exact absurd hst (by simp)
    · obtain ⟨_, he⟩ := append_frame s.q [resultOf v.call.id trc out]
      rw [he]
      refine of_active h.live (fun h1 => ?_) rfl
      refine (ha h1).mono rfl rfl (fun h2 => ?_) (fun h2 => by simp [State.push, h2])
      rcases h2 with h2 | ⟨⟨i, rfl⟩, h2⟩
      · exact aborting_mono (s := { s with stack := rest }) id (fun h3 => by simp [State.push, h3]) id h2
      · simp [State.aborting, State.push, Frame.dispatching, h2]

theorem callHandler {k : InvokeKind} {v : Invocation} (h : Ready s)
    (hs : s.stack = .toolStart k v :: rest) : Ready (State.callHandler k v { s with stack := rest }) := by
  refine of_active h.live (fun h1 => ?_) rfl
  refine (h.answerable h1).mono rfl rfl (aborting_mono id ?_ id) ?_
  · intro h2
    rw [hs] at h2
    cases k with
    | dispatch i => rfl
    | allow r => simpa [State.callHandler, Frame.dispatching] using h2
  · intro h2
    rw [hs] at h2
    simpa [State.callHandler, Frame.ending] using h2

end Ready

/-! ### Steps and runs -/

/-- The two invariants. -/
structure Sound (s : State) : Prop where
  books : Books s
  ready : Ready s

/-- **One step** under the contract and the condition keeps the invariants. -/
theorem Sound.step {t : State} {l : Label} (h : Sound s) (hc : toolContract s l = true)
    (hok : keepsWaiting s l = true) (hs : step s l = some t) : Sound t := by
  have ht := took_of_step hs
  obtain ⟨hb, hr⟩ := h
  obtain ⟨m, env⟩ := l
  cases ht with
  | input msg _ => exact ⟨hb.tail (Tail.sessionInput _ _ _ _), hr.sessionInput _ _ _⟩
  | cancel _ =>
    refine ⟨hb.tail (Tail.sessionCancel _), ?_⟩
    unfold State.sessionCancel
    split
    · exact hr.cancelled.push _
    · exact hr
  | resolve r d reason v hv =>
    exact ⟨hb.toolConfirmResolve r v d reason env, hr.toolConfirmResolve r v d reason env hv⟩
  | complete id out inv =>
    simp only [toolContract, Bool.and_eq_true, beq_iff_eq, Option.map_eq_some_iff,
      decide_eq_true_eq] at hc
    obtain ⟨⟨c, hcall, hid⟩, -⟩ := hc
    refine ⟨hb.asyncToolComplete out hcall hid ?_, ?_⟩
    · intro a rest hrem b hb' hst
      have h1 : rest.all (fun b => b.stage ≠ .running || b.inv ≠ inv) = true := by
        simpa [keepsWaiting, hrem] using hok
      simpa [hst] using all_eq_true.mp h1 b hb'
    · unfold State.asyncToolComplete
      split
      · exact hr.of_eq rfl rfl rfl (fun h1 => h1) rfl rfl rfl (fun _ _ h1 => h1)
      · next a rest hrem =>
        rw [append_eq]
        refine Ready.of_active hr.live (fun h1 => Answerable.push ?_ _) rfl
        exact (hr.answerable h1).shrink (asyncPendingRemove_mem hrem).2
          (fun _ v hv => ⟨v, hv, rfl⟩) (fun h2 => h2) (fun h2 => h2)
  | text serial chunk _ =>
    obtain ⟨_, he⟩ := onProviderText_frame s.q chunk
    rw [he]
    exact ⟨hb.of_eq rfl rfl rfl rfl rfl rfl rfl (fun h1 => h1),
      hr.of_eq rfl rfl rfl (fun h1 => h1) rfl rfl rfl (fun _ _ h1 => h1)⟩
  | thinking serial chunk _ =>
    obtain ⟨_, he⟩ := onProviderThinking_frame s.q chunk
    rw [he]
    exact ⟨hb.of_eq rfl rfl rfl rfl rfl rfl rfl (fun h1 => h1),
      hr.of_eq rfl rfl rfl (fun h1 => h1) rfl rfl rfl (fun _ _ h1 => h1)⟩
  | toolCall serial id name args _ =>
    obtain ⟨_, he⟩ := onProviderToolCall_frame s.q id name args
    rw [he]
    exact ⟨hb.of_eq rfl rfl rfl rfl rfl rfl rfl (fun h1 => h1),
      hr.of_eq rfl rfl rfl (fun h1 => h1) rfl rfl rfl (fun _ _ h1 => h1)⟩
  | done serial reason err usage f _ =>
    have hb' : Books ((s.land serial).emit (.provDone f.run f.turn)) :=
      hb.shrink (fun _ hm => hm) rfl rfl rfl (fun _ hm => .inl hm)
        (fun _ => countP_cons_of_neg (by simp [Obs.endOf])) rfl id
    have ha : s.q.running = true →
        Answerable ((s.land serial).emit (.provDone f.run f.turn)) (s.q.cancelled = true) :=
      fun h1 => (hr.answerable h1).mono rfl rfl aborting_cancelled id
    exact ⟨hb'.onProviderDone _ _ _ _ _, Ready.onProviderDone reason err usage f.seq env hb' hr.live ha⟩
  | handlerRet trc out k v inv rest hst =>
    have hd : trc = .pending → inv ∉ s.delivered := by
      intro hp
      simpa [keepsWaiting, hst, hp] using hok
    exact ⟨hb.handlerReturned hst trc out env hd, hr.handlerReturned hb hst trc out env hd⟩
  | retSubmit k rest hst =>
    have hb' := hb.pop hst
    have hr' := hr.pop hst rfl
    unfold submitAccepted
    split
    · exact ⟨hb'.tail (Tail.returnInput _ _ _), hr'.returnInput _ _⟩
    · exact ⟨hb'.tail (Tail.returnInput _ _ _), hr'.returnInput _ _⟩
    · exact ⟨hb', hr'⟩
  | retConfirm i rest hst =>
    have hb' := hb.pop hst
    refine ⟨Books.dispatchFrom env _ _ hb', Ready.dispatchLoop _ env hb' hr.live (fun h1 => ?_)⟩
    exact hr.answerable_pop hst rfl aborting_cancelled h1
  | retToolStart k v rest hst =>
    exact ⟨(hb.pop hst).callHandler k v, hr.callHandler hst⟩
  | retToolDone k rest hst =>
    have hb' := hb.pop hst
    refine ⟨hb'.afterInvoke k env, Ready.afterInvoke k env hb' hr.live (hr.invoke_pop hst rfl ?_)⟩
    intro hf
    cases k with
    | dispatch i => exact ⟨i, rfl⟩
    | allow r => exact absurd hf (by simp [Frame.dispatching])
  | retCompleteDone rest hst =>
    refine ⟨(hb.pop hst).tail (Tail.tailCheck _ _ _), Ready.tailCheck _ env hr.live (fun h1 => ?_)⟩
    exact hr.answerable_pop hst rfl (Ready.aborting_pop hst rfl) h1
  | retErrFinish reason rest hst =>
    exact ⟨(hb.pop hst).tail (Tail.finalize _ _ _), Ready.of_idle (Ready.finalize _ _ _)⟩
  | retProvErr userCancel rest hst =>
    refine ⟨(hb.pop hst).commitAndBranch _ _ env, Ready.of_idle ?_⟩
    unfold State.commitAndBranch
    dsimp only
    split
    · next h1 => exact absurd h1 (by simp)
    · exact Ready.finalize _ _ _
  | retProvCancel k rest hst _ =>
    refine ⟨(hb.pop hst).tail (Tail.cancelFrom _ _ _ _), ?_⟩
    by_cases hk : k = .cancel
    · subst hk
      have hkeep : cancelKeeps s rest 0 = true := by simpa [keepsWaiting, hst] using hok
      exact (hr.pop hst rfl).cancelLoop rfl hkeep
    · exact Ready.cancelFrom_destroy hk _ _ _ hr.live
  | retCancelTool i k rest hst _ =>
    refine ⟨(hb.pop hst).tail (Tail.cancelFrom _ _ _ _), ?_⟩
    by_cases hk : k = .cancel
    · subst hk
      have hkeep : cancelKeeps s rest (i + 1) = true := by simpa [keepsWaiting, hst] using hok
      exact (hr.pop hst rfl).cancelLoop rfl hkeep
    · exact Ready.cancelFrom_destroy hk _ _ _ hr.live
  | retSessDone rest hst =>
    exact ⟨(hb.pop hst).tail (Tail.destroy _ _), (hr.pop hst rfl).destroy (by simp)⟩
  | retCompactDone rest hst _ =>
    exact ⟨(hb.pop hst).tail (Tail.autoRetryPending _ _), (hr.pop hst rfl).autoRetryPending env⟩
  | setContextWindow n _ | create n _ =>
    exact ⟨hb.of_eq rfl rfl rfl rfl rfl rfl rfl (fun h1 => h1),
      hr.of_eq rfl rfl rfl (fun h1 => h1) rfl rfl rfl (fun _ _ h1 => h1)⟩
  | destroy hst _ => exact ⟨hb.tail (Tail.destroy _ _), hr.destroy (by simp)⟩

theorem Sound.init (conf : Conf) (contextWindow : ℕ) (store : List Slot) (nextUid : ℕ) :
    Sound (init conf contextWindow store nextUid) :=
  ⟨⟨fun _ h => absurd h (by simp [Libx.Agent.init, createSession]),
    fun _ h => absurd h (by simp [Libx.Agent.init, createSession]),
    fun _ _ _ h => absurd h (by simp [Libx.Agent.init, createSession]),
    ⟨fun _ => Nat.zero_le _, fun _ => rfl, fun _ _ => rfl⟩⟩, Ready.of_idle rfl⟩

/-- **The invariants say what they should**: a running Query between two events waits for
something. -/
theorem Sound.progress (h : Sound s) : Progress s := by
  refine ⟨h.books.ends.atMost, fun hrun hst => ?_⟩
  by_cases hf : s.awaitsRound = true
  · left
    simpa [State.awaitsRound] using hf
  · right
    have hne : s.q.async ≠ [] := by
      rcases h.ready.waits hrun with h1 | h1 | h1
      · exact absurd h1 hf
      · exact h1
      · rw [hst] at h1; exact absurd h1 (by simp)
    obtain ⟨a, ha⟩ := exists_mem_of_ne_nil _ hne
    cases hs : a.stage with
    | running => exact .inl ⟨a, ha, hs, (h.books.ran a ha hs).1⟩
    | awaitingConfirm =>
      obtain ⟨r, v, hr, hv⟩ := h.books.asked a ha hs
      refine .inr ⟨a, ha, hs, r, v, hr, hv, ?_⟩
      rcases h.ready.answerable hrun a ha hs r v hr hv with h2 | h2 | h2
      · exact h2
      · simp [State.aborting, hst, hf] at h2
      · simp [hst] at h2

/-- A session with a plain tool `ls` and no `on_tool_confirm`. -/
def plainConf : Conf := { tools := [⟨bytes "ls", false⟩] }

/-- The handler returns Pending, the host cancels while the tool runs, the tool completes. -/
def cancelRunning : List Label :=
  [⟨.input hello, {}⟩, ⟨.ret, {}⟩,
    ⟨.toolCall 0 (some (bytes "a")) (some (bytes "ls")) none, {}⟩,
    ⟨.done 0 .toolUse .ok none, {}⟩, ⟨.ret, {}⟩, ⟨.handlerRet .pending .none, {}⟩,
    ⟨.cancel, {}⟩, ⟨.ret, {}⟩, ⟨.ret, {}⟩,
    ⟨.complete (bytes "a") (.text (bytes "ok")) 0, {}⟩, ⟨.ret, {}⟩]

/-- Running, with no callback in progress and nothing that will come. -/
def State.stuck (s : State) : Bool :=
  s.q.running && s.stack.isEmpty && !s.awaitsRound && s.q.async.all (fun a => match a.stage with
    | .running => decide (a.inv ∈ s.delivered)
    | .awaitingConfirm => match a.resolver with
      | none => true
      | some r => match s.resolvers[r]? with
        | none => true
        | some v => !v.valid)

theorem not_progress_of_stuck (h : s.stuck = true) : ¬ Progress s := by
  intro hp
  unfold State.stuck at h
  simp only [Bool.and_eq_true, List.isEmpty_iff, Bool.not_eq_true', all_eq_true] at h
  obtain ⟨⟨⟨hrun, hst⟩, hf⟩, hall⟩ := h
  rcases hp.waits hrun hst with h1 | ⟨a, ha, hs, h1⟩ | ⟨a, ha, hs, r, v, hr, hv, h1⟩
  · rw [← Bool.not_eq_true] at hf
    exact hf (by simpa [State.awaitsRound] using h1)
  · have h2 := hall a ha
    rw [hs] at h2
    exact h1 (by simpa using h2)
  · have h2 := hall a ha
    simp [hs, hr, hv, h1] at h2

/-- The model asks for a gated call; the host cancels before it decides. -/
def cancelAwaiting : List Label :=
  [⟨.input hello, {}⟩, ⟨.ret, {}⟩,
    ⟨.toolCall 0 (some (bytes "a")) (some (bytes "rm")) none, {}⟩,
    ⟨.done 0 .toolUse .ok none, {}⟩, ⟨.ret, {}⟩, ⟨.cancel, {}⟩, ⟨.ret, {}⟩]

end Libx.Agent
