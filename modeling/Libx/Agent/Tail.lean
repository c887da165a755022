import Libx.Agent.Machine

/-!
# Libx.Agent.Tail — what finishing, submitting and cancelling leave alone

`Tail s t` collects what finalising or starting a run, submitting a round and releasing the Query do
not touch: no entry is added to the async array, no resolver is made or resolved, no handler is
called, and every run still ends at most once.
-/

namespace Libx.Agent

open State List

/-- A resolver less its `q` pointer. -/
def Resolver.key (v : Resolver) : Bytes × Bool := (v.id, v.done)

def Frame.ofTool : Frame → Bool
  | .confirm _ => true
  | .toolStart _ _ => true
  | .handler _ _ _ => true
  | .toolDone _ => true
  | .completeDone => true
  | _ => false

def Obs.ofTool : Obs → Bool
  | .asked _ _ => true
  | .decided _ _ => true
  | .invoked _ _ _ => true
  | _ => false

/-- The `on_done` of run `r`. -/
def Obs.endOf (r : ℕ) : Obs → Bool
  | .done r' _ => r' = r
  | _ => false

/-- Every run has ended at most once, the current one only if it is no longer running, and no later
one has. -/
structure EndsOnce (s : State) : Prop where
  atMost : ∀ r, s.trace.countP (Obs.endOf r) ≤ 1
  going : s.q.running = true → s.trace.countP (Obs.endOf s.run) = 0
  later : ∀ r, s.run < r → s.trace.countP (Obs.endOf r) = 0

/-- What the operations of this module leave alone. -/
structure Tail (s t : State) : Prop where
  conf : t.conf = s.conf
  async : t.q.async = s.q.async ∨ t.q.async = []
  keys : t.resolvers.map Resolver.key = s.resolvers.map Resolver.key
  valid : ∀ (r : ℕ) (v' : Resolver), t.resolvers[r]? = some v' → v'.valid = true →
    ∃ v, s.resolvers[r]? = some v ∧ v.valid = true
  calls : t.calls = s.calls
  delivered : t.delivered = s.delivered
  stack : ∃ fs, t.stack = fs ++ s.stack ∧ ∀ f ∈ fs, f.ofTool = false
  trace : ∃ os, t.trace = os ++ s.trace ∧ ∀ o ∈ os, o.ofTool = false
  ends : EndsOnce s → EndsOnce t

theorem invalidate_key (rs : List Resolver) (r : Option ℕ) :
    (invalidate rs r).map Resolver.key = rs.map Resolver.key := by
  cases r with
  | none => rfl
  | some r =>
    rw [invalidate]
    apply ext_getElem?
    intro i
    simp only [List.getElem?_map, List.getElem?_modify]
    cases rs[i]? with
    | none => rfl
    | some v => by_cases h : r = i <;> simp [h, Resolver.key]

theorem foldl_invalidate_key (as : List AsyncTool) (rs : List Resolver) :
    (as.foldl (fun rs a => invalidate rs a.resolver) rs).map Resolver.key =
      rs.map Resolver.key := by
  induction as generalizing rs with
  | nil => rfl
  | cons a as ih => rw [foldl_cons, ih, invalidate_key]

theorem invalidate_valid {rs : List Resolver} {o : Option ℕ} {r : ℕ} {v' : Resolver}
    (h : (invalidate rs o)[r]? = some v') (hv : v'.valid = true) :
    ∃ v, rs[r]? = some v ∧ v.valid = true := by
  cases o with
  | none => exact ⟨v', h, hv⟩
  | some i =>
    rw [invalidate, List.getElem?_modify] at h
    cases hr : rs[r]? with
    | none => rw [hr] at h; exact absurd h (by simp)
    | some v =>
      rw [hr] at h
      injection h with h
      dsimp only at h
      by_cases hi : i = r
      · rw [if_pos hi] at h
        rw [← h] at hv
        exact absurd hv (by simp)
      · rw [if_neg hi] at h
        exact ⟨v, rfl, by rw [h]; exact hv⟩

theorem foldl_invalidate_valid (as : List AsyncTool) {rs : List Resolver} {r : ℕ} {v' : Resolver}
    (h : (as.foldl (fun rs a => invalidate rs a.resolver) rs)[r]? = some v') (hv : v'.valid = true) :
    ∃ v, rs[r]? = some v ∧ v.valid = true := by
  induction as generalizing rs with
  | nil => exact ⟨v', h, hv⟩
  | cons a as ih =>
    obtain ⟨v, h1, h2⟩ := ih h
    exact invalidate_valid h1 h2

theorem EndsOnce.mono {s t : State} (h : EndsOnce s)
    (hc : ∀ r, t.trace.countP (Obs.endOf r) = s.trace.countP (Obs.endOf r)) (hr : s.run ≤ t.run)
    (hg : t.q.running = true → s.run < t.run ∨ t.run = s.run ∧ s.q.running = true) : EndsOnce t := by
  refine ⟨fun r => by rw [hc]; exact h.atMost r, ?_, fun r hlt => by rw [hc]; exact h.later r (by omega)⟩
  intro hrun
  rw [hc]
  rcases hg hrun with h1 | ⟨h1, h2⟩
  · exact h.later _ h1
  · rw [h1]; exact h.going h2

theorem EndsOnce.finish {s : State} (h : EndsOnce s) (hrun : s.q.running = true)
    (reason : DoneReason) :
    EndsOnce ({ s with q := { s.q with running := false } }.emit (.done s.run reason)) := by
  have hcount : ∀ r, (Obs.done s.run reason :: s.trace).countP (Obs.endOf r) =
      s.trace.countP (Obs.endOf r) + if s.run = r then 1 else 0 := by
    intro r
    rw [countP_cons]
    simp [Obs.endOf]
  refine ⟨?_, fun hf => absurd hf (by simp [State.emit]), ?_⟩
  · intro r
    refine (hcount r).le.trans ?_
    have h1 := h.atMost r
    split_ifs with hr
    · have h2 := h.going hrun
      rw [hr] at h2
      omega
    · omega
  · intro r hlt
    have hlt' : s.run < r := hlt
    refine (hcount r).trans ?_
    rw [h.later r hlt', if_neg (by omega)]

theorem no_frames (K : List Frame) : ∃ fs, K = fs ++ K ∧ ∀ f ∈ fs, f.ofTool = false :=
  ⟨[], rfl, by simp⟩

theorem one_frame {f : Frame} (K : List Frame) (h : f.ofTool = false) :
    ∃ fs, f :: K = fs ++ K ∧ ∀ f ∈ fs, f.ofTool = false := ⟨[f], rfl, by simpa using h⟩

theorem no_events (T : List Obs) : ∃ os, T = os ++ T ∧ ∀ o ∈ os, o.ofTool = false :=
  ⟨[], rfl, by simp⟩

theorem one_event {o : Obs} (T : List Obs) (h : o.ofTool = false) :
    ∃ os, o :: T = os ++ T ∧ ∀ o ∈ os, o.ofTool = false := ⟨[o], rfl, by simpa using h⟩

namespace Tail

theorem refl (s : State) : Tail s s :=
  ⟨rfl, .inl rfl, rfl, fun _ v h hv => ⟨v, h, hv⟩, rfl, rfl, no_frames _, no_events _, id⟩

theorem trans {s t u : State} (h₁ : Tail s t) (h₂ : Tail t u) : Tail s u := by
  obtain ⟨c1, a1, k1, v1, l1, d1, ⟨f1, hf1, nf1⟩, ⟨o1, ho1, no1⟩, e1⟩ := h₁
  obtain ⟨c2, a2, k2, v2, l2, d2, ⟨f2, hf2, nf2⟩, ⟨o2, ho2, no2⟩, e2⟩ := h₂
  refine ⟨c2.trans c1, ?_, k2.trans k1, ?_, l2.trans l1, d2.trans d1,
    ⟨f2 ++ f1, by rw [hf2, hf1, append_assoc], ?_⟩,
    ⟨o2 ++ o1, by rw [ho2, ho1, append_assoc], ?_⟩, e2 ∘ e1⟩
  · rcases a2 with a2 | a2
    · rw [a2]; exact a1
    · exact .inr a2
  · intro r v' h hv
    obtain ⟨v, h', hv'⟩ := v2 r v' h hv
    exact v1 r v h' hv'
  · intro f hf
    rcases mem_append.mp hf with h | h
    · exact nf2 f h
    · exact nf1 f h
  · intro o ho
    rcases mem_append.mp ho with h | h
    · exact no2 o h
    · exact no1 o h

theorem of_eq {s t : State} (hc : t.conf = s.conf) (ha : t.q.async = s.q.async)
    (hr : t.resolvers = s.resolvers) (hl : t.calls = s.calls) (hd : t.delivered = s.delivered)
    (hk : t.stack = s.stack) (ht : t.trace = s.trace) (hn : t.run = s.run)
    (hg : t.q.running = true → s.q.running = true) : Tail s t :=
  ⟨hc, .inl ha, by rw [hr], fun _ v h hv => ⟨v, hr ▸ h, hv⟩, hl, hd, hk ▸ no_frames _,
    ht ▸ no_events _,
    fun h => h.mono (fun r => by rw [ht]) hn.ge (fun h1 => .inr ⟨hn, hg h1⟩)⟩

theorem push {f : Frame} (s : State) (h : f.ofTool = false) : Tail s (s.push f) :=
  ⟨rfl, .inl rfl, rfl, fun _ v h hv => ⟨v, h, hv⟩, rfl, rfl, one_frame _ h, no_events _,
    fun h => h.mono (fun _ => rfl) le_rfl (fun h1 => .inr ⟨rfl, h1⟩)⟩

theorem emit {o : Obs} (s : State) (h : o.ofTool = false) (he : ∀ r, o.endOf r = false) :
    Tail s (s.emit o) := by
  refine ⟨rfl, .inl rfl, rfl, fun _ v h hv => ⟨v, h, hv⟩, rfl, rfl, no_frames _, one_event _ h, ?_⟩
  intro hs
  refine hs.mono (fun r => ?_) le_rfl (fun h1 => .inr ⟨rfl, h1⟩)
  exact countP_cons_of_neg (by rw [he r]; simp)

theorem returnInput (auto : Bool) (rc : Errno) (s : State) : Tail s (s.returnInput auto rc) := by
  cases auto
  · exact emit s rfl (fun _ => rfl)
  · exact refl s

theorem queryRelease (s : State) : Tail s s.queryRelease :=
  ⟨rfl, .inr rfl, foldl_invalidate_key _ _, fun _ _ h hv => foldl_invalidate_valid _ h hv, rfl, rfl,
    no_frames _, no_events _,
    fun h => h.mono (fun _ => rfl) le_rfl (fun h1 => absurd h1 (by simp [State.queryRelease]))⟩

theorem rollback (checkpoint : ℕ) (s : State) : Tail s (s.rollback checkpoint) :=
  of_eq rfl rfl rfl rfl rfl rfl rfl rfl id

theorem runFailed (k : RunKind) (rc : Errno) (s : State) : Tail s (s.runFailed k rc) := by
  have h0 : Tail s { s with q := { s.q with running := false, turn := 0 } } :=
    of_eq rfl rfl rfl rfl rfl rfl rfl rfl (by simp)
  cases k with
  | user checkpoint auto =>
    refine h0.trans ?_
    exact ((queryRelease _).trans (rollback checkpoint _)).trans (returnInput auto rc _)
  | compact auto =>
    refine h0.trans (.trans (t := { s with
      q := { s.q with running := false, turn := 0 }
      sess := { s.sess with compacting := false } }) ?_ ?_)
    · exact of_eq rfl rfl rfl rfl rfl rfl rfl rfl id
    · exact (queryRelease _).trans (returnInput auto .promptTooLong _)

theorem submitFailed (k : SubmitKind) (rc : Errno) (s : State) : Tail s (s.submitFailed k rc) := by
  cases k with
  | run k => exact runFailed k rc s
  | _ => exact push s rfl

theorem prepareRound (msgs : List Message) (s : State) : Tail s (s.prepareRound msgs) :=
  ⟨rfl, .inl rfl, rfl, fun _ v h hv => ⟨v, h, hv⟩, rfl, rfl, no_frames _, one_event _ rfl,
    fun h => h.mono (fun _ => countP_cons_of_neg (by simp [Obs.endOf])) le_rfl
      (fun h1 => .inr ⟨rfl, h1⟩)⟩

theorem submitRound (k : SubmitKind) (env : InputEnv) (s : State) : Tail s (s.submitRound k env) := by
  unfold State.submitRound
  cases viewBuild s.q.inputs s.q.produced with
  | error rc => exact submitFailed k rc s
  | ok msgs =>
    refine (prepareRound msgs s).trans ?_
    dsimp only
    split
    · exact ⟨rfl, .inl rfl, rfl, fun _ v h hv => ⟨v, h, hv⟩, rfl, rfl, one_frame _ rfl, no_events _,
        fun h => h.mono (fun _ => rfl) le_rfl (fun h1 => .inr ⟨rfl, h1⟩)⟩
    · exact submitFailed k _ _

theorem launch (user : Bool) (maxTurns : ℤ) (k : RunKind) (msgs : List Message) (env : InputEnv)
    (s : State) : Tail s ((s.create user maxTurns).queryRun k msgs env) := by
  unfold State.queryRun
  split
  · refine .trans (t := { s.create user maxTurns with
      q := { (s.create user maxTurns).q with inputs := turnBufAppend msgs, running := true } }) ?_
      (submitRound _ _ _)
    exact ⟨rfl, .inr rfl, rfl, fun _ v h hv => ⟨v, h, hv⟩, rfl, rfl, no_frames _, no_events _,
      fun h => h.mono (fun _ => rfl) (Nat.le_succ _) (fun _ => .inl (Nat.lt_succ_self _))⟩
  · refine .trans (t := s.create user maxTurns) ?_ (runFailed k _ _)
    exact ⟨rfl, .inr rfl, rfl, fun _ v h hv => ⟨v, h, hv⟩, rfl, rfl, no_frames _, no_events _,
      fun h => h.mono (fun _ => rfl) (Nat.le_succ _) (fun _ => .inl (Nat.lt_succ_self _))⟩

theorem acceptInput (auto : Bool) (msg : Message) (env : InputEnv) (s : State) :
    Tail s (s.acceptInput auto msg env) := by
  unfold State.acceptInput
  dsimp only
  split
  · exact returnInput _ _ s
  · split
    · refine .trans (.trans ?_ (rollback _ _)) (returnInput _ _ _)
      exact of_eq rfl rfl rfl rfl rfl rfl rfl rfl id
    · split
      · refine .trans (.trans ?_ (rollback _ _)) (returnInput _ _ _)
        exact of_eq rfl rfl rfl rfl rfl rfl rfl rfl id
      · refine .trans ?_ (launch _ _ _ _ _ _)
        exact of_eq rfl rfl rfl rfl rfl rfl rfl rfl id

theorem sessionInput (auto : Bool) (msg : Message) (env : InputEnv) (s : State) :
    Tail s (s.sessionInput auto msg env) := by
  unfold State.sessionInput
  split
  · exact returnInput _ _ s
  · split
    · refine .trans ?_ (returnInput _ _ _)
      exact of_eq rfl rfl rfl rfl rfl rfl rfl rfl id
    · split
      · refine .trans ?_ (returnInput _ _ _)
        exact of_eq rfl rfl rfl rfl rfl rfl rfl rfl id
      · refine .trans ?_ (launch _ _ _ _ _ _)
        exact of_eq rfl rfl rfl rfl rfl rfl rfl rfl id
    · refine .trans ?_ (acceptInput _ _ _ _)
      exact of_eq rfl rfl rfl rfl rfl rfl rfl rfl id

theorem autoRetryPending (env : InputEnv) (s : State) : Tail s (s.autoRetryPending env) := by
  unfold State.autoRetryPending
  split
  · exact refl s
  · refine .trans ?_ (sessionInput _ _ _ _)
    exact of_eq rfl rfl rfl rfl rfl rfl rfl rfl id

theorem finalize (reason : DoneReason) (env : InputEnv) (s : State) :
    Tail s (s.finalize reason env) := by
  unfold State.finalize
  split
  · next hrun =>
    have h1 : Tail s ({ s with q := { s.q with running := false } }.emit (.done s.run reason)) :=
      ⟨rfl, .inl rfl, rfl, fun _ v h hv => ⟨v, h, hv⟩, rfl, rfl, no_frames _, one_event _ rfl,
        fun h => h.finish hrun reason⟩
    refine h1.trans ?_
    unfold State.sessFwdOnDone
    split
    · refine .trans (.trans ?_ (queryRelease _)) (push _ rfl)
      split <;> exact of_eq rfl rfl rfl rfl rfl rfl rfl rfl id
    · refine .trans ?_ (push _ rfl)
      exact of_eq rfl rfl rfl rfl rfl rfl rfl rfl id
  · exact refl s

theorem tailCheck (k : SubmitKind) (env : InputEnv) (s : State) : Tail s (s.tailCheck k env) := by
  unfold State.tailCheck
  split
  · split
    · exact finalize _ _ s
    · exact submitRound k env s
  · exact refl s

theorem afterDispatch (env : InputEnv) (s : State) : Tail s (s.afterDispatch env) := by
  unfold State.afterDispatch
  refine .trans (t := { s with q := { s.q with pending := [] } }) ?_ ?_
  · exact of_eq rfl rfl rfl rfl rfl rfl rfl rfl id
  · dsimp only
    split
    · exact finalize _ _ _
    · split
      · exact refl _
      · exact submitRound _ _ _

theorem cancelEnd (k : CancelKind) (s : State) : Tail s (s.cancelEnd k) := by
  cases k with
  | cancel => exact refl s
  | queryDestroy => exact queryRelease s
  | sessionDestroy =>
    refine (queryRelease s).trans ?_
    exact of_eq rfl rfl rfl rfl rfl rfl rfl rfl id

theorem cancelFrom (k : CancelKind) : ∀ (as : List AsyncTool) (i : ℕ) (s : State),
    Tail s (s.cancelFrom k as i)
  | [], _, s => cancelEnd k s
  | a :: as, i, s => by
    unfold State.cancelFrom
    cases a.stage with
    | awaitingConfirm =>
      refine .trans (t := { s with resolvers := invalidate s.resolvers a.resolver }) ?_
        (cancelFrom k as (i + 1) _)
      exact ⟨rfl, .inl rfl, invalidate_key _ _, fun _ _ h hv => invalidate_valid h hv, rfl, rfl,
        no_frames _, no_events _,
        fun h => h.mono (fun _ => rfl) le_rfl (fun h1 => .inr ⟨rfl, h1⟩)⟩
    | running => exact push s rfl

theorem markCancel (k : CancelKind) (s : State) : Tail s (s.markCancel k) := by
  refine .trans (t := { s with q := { s.q with cancelled := true } }) ?_ (push _ rfl)
  exact of_eq rfl rfl rfl rfl rfl rfl rfl rfl id

theorem sessionCancel (s : State) : Tail s s.sessionCancel := by
  unfold State.sessionCancel
  split
  · exact markCancel _ s
  · exact refl s

theorem destroy (k : CancelKind) (s : State) : Tail s (State.destroy k s) := by
  unfold State.destroy
  split
  · exact markCancel k s
  · exact cancelEnd k s

end Tail

end Libx.Agent
