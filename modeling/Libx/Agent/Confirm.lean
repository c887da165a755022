import Libx.Agent.Tail

/-!
# Libx.Agent.Confirm — the confirmation gate

A resolver refers to its call by id alone, and `async_pending_remove` takes the first entry with
the id.  The gate holds in every run in which each Allow finds its own entry (`allowOwn`).
-/

namespace Libx.Agent

open Libx.Core State List

/-- **The confirmation gate**: whenever the handler of a needs_confirm tool is called for a Query
with an `on_tool_confirm`, that is the effect of resolving Allow the very resolver that was handed
out with the call; it is the call's only invocation; and a Reject of that resolver never comes. -/
def ConfirmGate (T : List Obs) : Prop :=
  ∀ post inv v cause rest, T = post ++ .invoked inv v cause :: rest →
    v.tool.needsConfirm = true → v.confirmSet = true →
    ∃ r, cause = some r ∧ v.owner = some r ∧ .asked r v.call ∈ rest ∧ .decided r .allow ∈ rest ∧
      .decided r .reject ∉ T ∧ ∀ inv' v' cause', .invoked inv' v' cause' ∈ post ++ rest →
        v'.owner ≠ some r

/-- The condition: an Allow that takes an entry takes the one its resolver was made for. -/
def allowOwn (s : State) (l : Label) : Bool :=
  match l.move with
  | .resolve r .allow _ =>
    match s.resolvers[r]? with
    | none => true
    | some v => v.done || !v.valid ||
      match asyncPendingRemove v.id s.q.async with
      | none => true
      | some (a, _) => a.resolver = some r
  | _ => true

/-! ### What the gate does not see -/

def Frame.isStart : Frame → Bool
  | .toolStart _ _ => true
  | _ => false

/-- From `s` to `t` the gate saw nothing: no entry with a resolver was added, no resolver made or
resolved, no handler called or about to be called. -/
structure Unseen (s t : State) : Prop where
  conf : t.conf = s.conf
  async : ∀ a ∈ t.q.async, a ∈ s.q.async ∨ a.resolver = none
  keys : t.resolvers.map Resolver.key = s.resolvers.map Resolver.key
  stack : ∃ fs, t.stack = fs ++ s.stack ∧ ∀ f ∈ fs, f.isStart = false
  trace : ∃ os, t.trace = os ++ s.trace ∧ ∀ o ∈ os, o.ofTool = false

namespace Unseen

theorem of_eq {s t : State} (hc : t.conf = s.conf) (ha : t.q.async = s.q.async)
    (hr : t.resolvers = s.resolvers) (hk : t.stack = s.stack) (ht : t.trace = s.trace) :
    Unseen s t :=
  ⟨hc, fun _ h => .inl (ha ▸ h), by rw [hr], ⟨[], by rw [hk]; rfl, by simp⟩, ⟨[], by rw [ht]; rfl, by simp⟩⟩

theorem push {f : Frame} (s : State) (h : f.isStart = false) : Unseen s (s.push f) :=
  ⟨rfl, fun _ h => .inl h, rfl, ⟨[f], rfl, by simpa using h⟩, ⟨[], rfl, by simp⟩⟩

theorem of_tail {s t : State} (h : Tail s t) : Unseen s t :=
  ⟨h.conf, fun a ha => by
    rcases h.async with h1 | h1
    · exact .inl (h1 ▸ ha)
    · rw [h1] at ha; exact absurd ha (by simp), h.keys, by
    obtain ⟨fs, hfs, hf⟩ := h.stack
    refine ⟨fs, hfs, fun f hm => ?_⟩
    have h1 := hf f hm
    cases f <;> first | rfl | exact absurd h1 (by simp [Frame.ofTool]), h.trace⟩

end Unseen

/-! ### The gate over a growing trace -/

/-- Adding one event keeps the gate: a Reject must not hit an invoked call, and an invocation must
be the first of its owner and, for a gated call, the effect of its own Allow. -/
theorem ConfirmGate.cons {o : Obs} {T : List Obs} (h : ConfirmGate T)
    (hrej : ∀ r, o = .decided r .reject → ∀ inv v c, .invoked inv v c ∈ T → v.owner ≠ some r)
    (hinv : ∀ inv v c, o = .invoked inv v c →
      (∀ inv' v' c', .invoked inv' v' c' ∈ T → ∀ r, v'.owner = some r → v.owner ≠ some r) ∧
      (v.tool.needsConfirm = true → v.confirmSet = true →
        ∃ r, c = some r ∧ v.owner = some r ∧ .asked r v.call ∈ T ∧ .decided r .allow ∈ T ∧
          .decided r .reject ∉ T)) :
    ConfirmGate (o :: T) := by
  intro post inv v cause rest hsplit hn hc
  cases post with
  | nil =>
    injection hsplit with ho hT
    subst hT
    obtain ⟨hfirst, hgate⟩ := hinv inv v cause ho
    obtain ⟨r, hr, hown, hask, hdec, hnrej⟩ := hgate hn hc
    refine ⟨r, hr, hown, hask, hdec, ?_, ?_⟩
    · rw [ho]
      intro hm
      rcases mem_cons.mp hm with h1 | h1
      · exact absurd h1 (by simp)
      · exact hnrej h1
    · intro inv' v' c' hm hv'
      exact hfirst inv' v' c' (by simpa using hm) r hv' hown
  | cons o' post =>
    injection hsplit with ho hT
    subst ho
    obtain ⟨r, hr, hown, hask, hdec, hnrej, honce⟩ := h post inv v cause rest hT hn hc
    have hvT : .invoked inv v cause ∈ T := by rw [hT]; simp
    refine ⟨r, hr, hown, hask, hdec, ?_, ?_⟩
    · intro hm
      rcases mem_cons.mp hm with h1 | h1
      · exact hrej r h1.symm inv v cause hvT hown
      · exact hnrej h1
    · intro inv' v' c' hm hv'
      rcases mem_cons.mp hm with h1 | h1
      · exact (hinv inv' v' c' h1.symm).1 inv v cause hvT r hown hv'
      · exact honce inv' v' c' h1 hv'

theorem ConfirmGate.quiet {T : List Obs} (h : ConfirmGate T) :
    ∀ os : List Obs, (∀ o ∈ os, o.ofTool = false) → ConfirmGate (os ++ T)
  | [], _ => h
  | o :: os, hq => by
    have ho : o.ofTool = false := hq o mem_cons_self
    refine (h.quiet os (fun x hx => hq x (mem_cons_of_mem _ hx))).cons ?_ ?_
    · rintro r rfl; simp [Obs.ofTool] at ho
    · rintro inv v c rfl; simp [Obs.ofTool] at ho

theorem confirmGate_nil : ConfirmGate [] := by
  intro post inv v cause rest h
  exact absurd h (by simp)

/-! ### The invariant -/

/-- The resolver whose Allow a frame is about to carry out. -/
def Frame.allowing : Frame → Option ℕ
  | .toolStart (.allow r) _ => some r
  | _ => none

/-- What carries the gate from step to step: an entry was asked about under its resolver; a decided
resolver is done and was decided once; an invocation about to be made is owned by the Allow it
comes from and is its first; a direct one is not gated. -/
structure Guard (s : State) : Prop where
  waiting : ∀ a ∈ s.q.async, ∀ r, a.resolver = some r → .asked r a.call ∈ s.trace
  decided : ∀ r d, .decided r d ∈ s.trace → ∃ v, s.resolvers[r]? = some v ∧ v.done = true
  once : ∀ r, .decided r .allow ∈ s.trace → .decided r .reject ∉ s.trace
  starting : ∀ r v, .toolStart (.allow r) v ∈ s.stack →
    v.owner = some r ∧ .asked r v.call ∈ s.trace ∧ .decided r .allow ∈ s.trace ∧
      ∀ inv v' c, .invoked inv v' c ∈ s.trace → v'.owner ≠ some r
  startingOnce : (s.stack.filterMap Frame.allowing).Nodup
  direct : ∀ i v, .toolStart (.dispatch i) v ∈ s.stack →
    v.owner = none ∧ (v.tool.needsConfirm && v.confirmSet) = false
  invoked : ∀ inv v c, .invoked inv v c ∈ s.trace → ∀ r, v.owner = some r →
    .decided r .allow ∈ s.trace
  gate : ConfirmGate s.trace

theorem done_of_keys {rs rs' : List Resolver} {r : ℕ} {v : Resolver}
    (hk : rs'.map Resolver.key = rs.map Resolver.key) (h : rs[r]? = some v) (hd : v.done = true) :
    ∃ v', rs'[r]? = some v' ∧ v'.done = true := by
  have h1 : (rs'.map Resolver.key)[r]? = (rs.map Resolver.key)[r]? := by rw [hk]
  rw [List.getElem?_map, List.getElem?_map, h] at h1
  cases h2 : rs'[r]? with
  | none => rw [h2] at h1; exact absurd h1 (by simp)
  | some v' =>
    rw [h2] at h1
    simp only [Option.map_some, Option.some.injEq, Resolver.key, Prod.mk.injEq] at h1
    exact ⟨v', rfl, h1.2.trans hd⟩

theorem filterMap_allowing_quiet (fs K : List Frame) (h : ∀ f ∈ fs, f.isStart = false) :
    (fs ++ K).filterMap Frame.allowing = K.filterMap Frame.allowing := by
  rw [filterMap_append]
  have h0 : fs.filterMap Frame.allowing = [] := by
    rw [filterMap_eq_nil_iff]
    intro f hf
    have hq := h f hf
    cases f <;> first | rfl | simp [Frame.isStart] at hq
  rw [h0, nil_append]

theorem Guard.unseen {s t : State} (h : Guard s) (hu : Unseen s t) : Guard t := by
  obtain ⟨-, ha, hk, ⟨fs, hfs, hq⟩, ⟨os, hos, hg⟩⟩ := hu
  have hmem : ∀ {o : Obs}, o ∈ s.trace → o ∈ t.trace := fun {o} ho => by
    rw [hos]; exact mem_append_right _ ho
  have hback : ∀ {o : Obs}, o.ofTool = true → o ∈ t.trace → o ∈ s.trace := by
    intro o h1 h2
    rw [hos] at h2
    rcases mem_append.mp h2 with h3 | h3
    · rw [hg o h3] at h1; exact absurd h1 (by simp)
    · exact h3
  have hstart : ∀ {k : InvokeKind} {v : Invocation}, .toolStart k v ∈ t.stack →
      .toolStart k v ∈ s.stack := by
    intro k v hm
    rw [hfs] at hm
    rcases mem_append.mp hm with h3 | h3
    · exact absurd (hq _ h3) (by simp [Frame.isStart])
    · exact h3
  refine ⟨?_, ?_, ?_, ?_, ?_, ?_, ?_, ?_⟩
  · intro a hm r hr
    rcases ha a hm with h1 | h1
    · exact hmem (h.waiting a h1 r hr)
    · rw [h1] at hr; exact absurd hr (by simp)
  · intro r d hm
    obtain ⟨v, hv, hd⟩ := h.decided r d (hback rfl hm)
    exact done_of_keys hk hv hd
  · intro r hm hm'
    exact h.once r (hback rfl hm) (hback rfl hm')
  · intro r v hm
    obtain ⟨h1, h2, h3, h4⟩ := h.starting r v (hstart hm)
    exact ⟨h1, hmem h2, hmem h3, fun inv v' c hv' => h4 inv v' c (hback rfl hv')⟩
  · rw [hfs, filterMap_allowing_quiet fs _ hq]; exact h.startingOnce
  · intro i v hm; exact h.direct i v (hstart hm)
  · intro inv v c hm r hr; exact hmem (h.invoked inv v c (hback rfl hm) r hr)
  · rw [hos]; exact h.gate.quiet os hg

theorem Guard.tail {s t : State} (h : Guard s) (ht : Tail s t) : Guard t := h.unseen (.of_tail ht)

/-! ### Steps the gate sees -/

theorem Guard.pop {s : State} {f : Frame} {rest : List Frame} (h : Guard s)
    (hs : s.stack = f :: rest) : Guard { s with stack := rest } := by
  have hmem : ∀ {g : Frame}, g ∈ rest → g ∈ s.stack := fun {g} hg => by
    rw [hs]; exact mem_cons_of_mem _ hg
  refine ⟨h.waiting, h.decided, h.once, fun r v hm => h.starting r v (hmem hm), ?_,
    fun i v hm => h.direct i v (hmem hm), h.invoked, h.gate⟩
  have hn := h.startingOnce
  rw [hs] at hn
  exact hn.sublist ((sublist_cons_self f rest).filterMap _)

theorem Guard.askConfirm {s : State} (h : Guard s) (i : ℕ) (t : Tool) (c : Call) :
    Guard (s.askConfirm i t c) := by
  have hback : ∀ {o : Obs}, o ≠ .asked s.resolvers.length c → o ∈ (s.askConfirm i t c).trace →
      o ∈ s.trace := by
    intro o hne hm
    rcases mem_cons.mp hm with h1 | h1
    · exact absurd h1 hne
    · exact h1
  have hstart : ∀ {k : InvokeKind} {v : Invocation}, .toolStart k v ∈ (s.askConfirm i t c).stack →
      .toolStart k v ∈ s.stack := by
    intro k v hm
    rcases mem_cons.mp hm with h1 | h1
    · exact absurd h1 (by simp)
    · exact h1
  refine ⟨?_, ?_, ?_, ?_, ?_, ?_, ?_, ?_⟩
  · intro a ha r hr
    rcases mem_append.mp ha with h1 | h1
    · exact mem_cons_of_mem _ (h.waiting a h1 r hr)
    · rw [mem_singleton] at h1
      subst h1
      injection hr with hr
      subst hr
      exact mem_cons_self
  · intro r d hm
    obtain ⟨v, hv, hd⟩ := h.decided r d (hback (by simp) hm)
    have hlt : r < s.resolvers.length := (List.getElem?_eq_some_iff.mp hv).1
    exact ⟨v, by rw [← hv]; exact List.getElem?_append_left hlt, hd⟩
  · intro r hm hm'
    exact h.once r (hback (by simp) hm) (hback (by simp) hm')
  · intro r v hm
    obtain ⟨h1, h2, h3, h4⟩ := h.starting r v (hstart hm)
    exact ⟨h1, mem_cons_of_mem _ h2, mem_cons_of_mem _ h3,
      fun inv v' c' hv' => h4 inv v' c' (hback (by simp) hv')⟩
  · exact h.startingOnce
  · intro j v hm; exact h.direct j v (hstart hm)
  · intro inv v c' hm r hr; exact mem_cons_of_mem _ (h.invoked inv v c' (hback (by simp) hm) r hr)
  · exact h.gate.cons (by intro r hr; exact absurd hr (by simp))
      (by intro inv v c' hr; exact absurd hr (by simp))

theorem Guard.pushDirect {s : State} (h : Guard s) (i : ℕ) (v : Invocation)
    (hv : v.owner = none ∧ (v.tool.needsConfirm && v.confirmSet) = false) :
    Guard (s.push (.toolStart (.dispatch i) v)) := by
  have hstart : ∀ {r : ℕ} {w : Invocation},
      .toolStart (.allow r) w ∈ (s.push (.toolStart (.dispatch i) v)).stack →
      .toolStart (.allow r) w ∈ s.stack := by
    intro r w hm
    rcases mem_cons.mp hm with h1 | h1
    · exact absurd h1 (by simp)
    · exact h1
  refine ⟨h.waiting, h.decided, h.once, fun r w hm => h.starting r w (hstart hm), h.startingOnce, ?_,
    h.invoked, h.gate⟩
  intro j w hm
  rcases mem_cons.mp hm with h1 | h1
  · injection h1 with _ h1; subst h1; exact hv
  · exact h.direct j w h1

theorem Guard.dispatchFrom (env : InputEnv) : ∀ (cs : List Call) (i : ℕ) {s : State}, Guard s →
    Guard (s.dispatchFrom env cs i)
  | [], _, s, h => h.tail (Tail.afterDispatch env s)
  | c :: cs, i, s, h => by
    unfold State.dispatchFrom
    split
    · exact h.tail (Tail.afterDispatch env s)
    · split
      · exact Guard.dispatchFrom env cs (i + 1)
          (h.unseen (Unseen.of_eq rfl (append_async _ _) rfl rfl rfl))
      · next t _ =>
        split
        · exact h.askConfirm i t c
        · next hg => exact h.pushDirect i _ ⟨rfl, by simpa using hg⟩

theorem Guard.afterInvoke {s : State} (h : Guard s) (k : InvokeKind) (env : InputEnv) :
    Guard (s.afterInvoke k env) := by
  cases k with
  | dispatch i => exact Guard.dispatchFrom env _ _ h
  | allow r => exact h.tail (Tail.tailCheck _ env s)

theorem Guard.callHandler {s : State} {k : InvokeKind} {v : Invocation} {rest : List Frame}
    (h : Guard s) (hs : s.stack = .toolStart k v :: rest) :
    Guard (State.callHandler k v { s with stack := rest }) := by
  have hp := h.pop hs
  have htop : .toolStart k v ∈ s.stack := by rw [hs]; exact mem_cons_self
  have hstart : ∀ {k' : InvokeKind} {w : Invocation},
      .toolStart k' w ∈ (State.callHandler k v { s with stack := rest }).stack →
      .toolStart k' w ∈ rest := by
    intro k' w hm
    rcases mem_cons.mp hm with h1 | h1
    · exact absurd h1 (by simp)
    · exact h1
  refine ⟨?_, ?_, ?_, ?_, hp.startingOnce, fun i w hm => hp.direct i w (hstart hm), ?_, ?_⟩
  · intro a ha r hr; exact mem_cons_of_mem _ (h.waiting a ha r hr)
  · intro r d hm
    rcases mem_cons.mp hm with h1 | h1
    · exact absurd h1 (by simp)
    · exact h.decided r d h1
  · intro r hm hm'
    rcases mem_cons.mp hm with h1 | h1
    · exact absurd h1 (by simp)
    · rcases mem_cons.mp hm' with h2 | h2
      · exact absurd h2 (by simp)
      · exact h.once r h1 h2
  · -- another invocation in waiting belongs to another resolver
    intro r w hm
    have hw := hstart hm
    obtain ⟨h1, h2, h3, h4⟩ := hp.starting r w hw
    refine ⟨h1, mem_cons_of_mem _ h2, mem_cons_of_mem _ h3, ?_⟩
    intro inv v' c' hv' ho
    rcases mem_cons.mp hv' with h5 | h5
    · injection h5 with _ h5 _
      subst h5
      cases k with
      | dispatch i => rw [(h.direct i v' htop).1] at ho; exact absurd ho (by simp)
      | allow r' =>
        have hr' : r' = r := by
          have h6 := (h.starting r' v' htop).1
          rw [ho] at h6; injection h6 with h6; exact h6.symm
        subst hr'
        have hn := h.startingOnce
        rw [hs, filterMap_cons_some (by rfl : Frame.allowing (.toolStart (.allow r') v') = some r')] at hn
        exact (nodup_cons.mp hn).1 (mem_filterMap.mpr ⟨_, hw, rfl⟩)
    · exact h4 inv v' c' h5 ho
  · intro inv w c hm r hr
    rcases mem_cons.mp hm with h1 | h1
    · injection h1 with _ h1 _
      subst h1
      cases k with
      | dispatch i => rw [(h.direct i w htop).1] at hr; exact absurd hr (by simp)
      | allow r' =>
        obtain ⟨h2, -, h3, -⟩ := h.starting r' w htop
        rw [h2] at hr; injection hr with hr; subst hr
        exact mem_cons_of_mem _ h3
    · exact mem_cons_of_mem _ (h.invoked inv w c h1 r hr)
  · refine h.gate.cons (by intro r hr; exact absurd hr (by simp)) ?_
    intro inv w c ho
    injection ho with _ hw hc
    subst hw
    cases k with
    | dispatch i =>
      obtain ⟨h1, h2⟩ := h.direct i v htop
      refine ⟨fun inv' v' c' _ r _ => by rw [h1]; simp, ?_⟩
      intro hn hcs
      rw [hn, hcs] at h2
      exact absurd h2 (by simp)
    | allow r =>
      obtain ⟨h1, h2, h3, h4⟩ := h.starting r v htop
      refine ⟨?_, fun _ _ => ⟨r, hc.symm, h1, h2, h3, h.once r h3⟩⟩
      intro inv' v' c' hv' r' hr' ho'
      rw [h1] at ho'
      injection ho' with ho'
      subst ho'
      exact h4 inv' v' c' hv' hr'

theorem Guard.decide {s : State} (h : Guard s) {r : ℕ} {v : Resolver} (d : Decision)
    (hv : s.resolvers[r]? = some v) (hd : v.done = false) :
    Guard ({ s with resolvers := s.resolvers.set r { v with done := true } }.emit (.decided r d)) := by
  have hlt : r < s.resolvers.length := (List.getElem?_eq_some_iff.mp hv).1
  have hnew : ∀ d', .decided r d' ∉ s.trace := by
    intro d' hm
    obtain ⟨w, hw, hwd⟩ := h.decided r d' hm
    rw [hv] at hw; injection hw with hw; subst hw
    rw [hd] at hwd; exact absurd hwd (by simp)
  refine ⟨?_, ?_, ?_, ?_, h.startingOnce, h.direct, ?_, ?_⟩
  · intro a ha r' hr'; exact mem_cons_of_mem _ (h.waiting a ha r' hr')
  · intro r' d' hm
    by_cases hr : r' = r
    · subst hr
      exact ⟨_, List.getElem?_set_self hlt, rfl⟩
    · rcases mem_cons.mp hm with h1 | h1
      · injection h1 with h1 _; exact absurd h1 hr
      · obtain ⟨w, hw, hwd⟩ := h.decided r' d' h1
        exact ⟨w, by rw [← hw]; exact List.getElem?_set_ne (Ne.symm hr), hwd⟩
  · intro r' hm hm'
    rcases mem_cons.mp hm with h1 | h1
    · injection h1 with h1 h1'
      rcases mem_cons.mp hm' with h2 | h2
      · injection h2 with _ h2; rw [← h1'] at h2; exact absurd h2 (by simp)
      · subst h1; exact hnew _ h2
    · rcases mem_cons.mp hm' with h2 | h2
      · injection h2 with h2 _; subst h2; exact hnew _ h1
      · exact h.once r' h1 h2
  · intro r' w hm
    obtain ⟨h1, h2, h3, h4⟩ := h.starting r' w hm
    refine ⟨h1, mem_cons_of_mem _ h2, mem_cons_of_mem _ h3, ?_⟩
    intro inv v' c hm'
    rcases mem_cons.mp hm' with h5 | h5
    · exact absurd h5 (by simp)
    · exact h4 inv v' c h5
  · intro inv w c hm r' hr'
    rcases mem_cons.mp hm with h1 | h1
    · exact absurd h1 (by simp)
    · exact mem_cons_of_mem _ (h.invoked inv w c h1 r' hr')
  · refine h.gate.cons ?_ (by intro inv w c ho; exact absurd ho (by simp))
    intro r' ho inv w c hm how
    injection ho with ho _
    subst ho
    exact hnew _ (h.invoked inv w c hm r how)

theorem Guard.resolve {s : State} (h : Guard s) {r : ℕ} {v : Resolver} (d : Decision)
    (reason : Bytes) (env : InputEnv) (hv : s.resolvers[r]? = some v)
    (hown : d = .allow → v.done = false → v.valid = true → ∀ a rest,
      asyncPendingRemove v.id s.q.async = some (a, rest) → a.resolver = some r) :
    Guard (s.toolConfirmResolve r v d reason env) := by
  unfold State.toolConfirmResolve
  split
  · exact h
  · next hd =>
    have hd : v.done = false := by simpa using hd
    have hg := h.decide d hv hd
    set t := { s with resolvers := s.resolvers.set r { v with done := true } }.emit (.decided r d)
    dsimp only
    split
    · exact hg
    · next hval =>
      have hval : v.valid = true := by simpa using hval
      split
      · exact hg
      · next a rest hrem =>
        obtain ⟨hmem, hrest⟩ := asyncPendingRemove_mem hrem
        cases d with
        | reject =>
          refine Guard.tail ?_ (Tail.tailCheck _ env _)
          refine hg.unseen ⟨rfl, ?_, rfl, ⟨[], rfl, by simp⟩, ⟨[], rfl, by simp⟩⟩
          intro b hb
          rw [append_async] at hb
          exact .inl (hrest b hb)
        | allow =>
          -- the entry is the resolver's own, and the resolver was decided just now
          have ho : a.resolver = some r := hown rfl hd hval a rest hrem
          have hnot : ∀ w, .toolStart (.allow r) w ∉ s.stack := by
            intro w hm
            obtain ⟨w', hw', hwd⟩ := h.decided r .allow (h.starting r w hm).2.2.1
            rw [hv] at hw'; injection hw' with hw'; subst hw'
            rw [hd] at hwd; exact absurd hwd (by simp)
          refine ⟨?_, hg.decided, hg.once, ?_, ?_, ?_, hg.invoked, hg.gate⟩
          · intro b hb r' hr'; exact hg.waiting b (hrest b hb) r' hr'
          · intro r' w hm
            rcases mem_cons.mp hm with h1 | h1
            · injection h1 with h1 h2
              injection h1 with h1
              subst h1 h2
              refine ⟨ho, hg.waiting a hmem r' ho, mem_cons_self, ?_⟩
              intro inv v' c hm' ho'
              rcases mem_cons.mp hm' with h3 | h3
              · exact absurd h3 (by simp)
              · obtain ⟨w', hw', hwd⟩ := h.decided r' .allow (h.invoked inv v' c h3 r' ho')
                rw [hv] at hw'; injection hw' with hw'; subst hw'
                rw [hd] at hwd; exact absurd hwd (by simp)
            · exact hg.starting r' w h1
          · refine (nodup_cons.mpr ⟨?_, h.startingOnce⟩ : (r :: _).Nodup)
            intro hm
            obtain ⟨f, hf, hfr⟩ := mem_filterMap.mp hm
            cases f with
            | toolStart k w =>
              cases k with
              | dispatch i => simp [Frame.allowing] at hfr
              | allow r' =>
                simp only [Frame.allowing, Option.some.injEq] at hfr
                subst hfr
                exact hnot w hf
            | _ => simp [Frame.allowing] at hfr
          · intro i w hm
            rcases mem_cons.mp hm with h1 | h1
            · exact absurd h1 (by simp)
            · exact h.direct i w h1

/-! ### Steps and runs -/

theorem Guard.commitAndBranch {s : State} (h : Guard s) (reason : ProviderStop) (userCancel : Bool)
    (env : InputEnv) : Guard (s.commitAndBranch reason userCancel env) := by
  unfold State.commitAndBranch
  have h1 : Guard { s with q := commitAssistantTurn s.q } :=
    h.unseen (Unseen.of_eq rfl (append_async _ _) rfl rfl rfl)
  dsimp only
  split
  · unfold State.toolLoop
    split
    · exact h1.tail (Tail.finalize _ _ _)
    · exact Guard.dispatchFrom env _ _ h1
  · exact h1.tail (Tail.finalize _ _ _)

theorem Guard.onProviderDone {s : State} (h : Guard s) (reason : ProviderStop) (err : Errno)
    (usage : Option Usage) (seq : ℕ) (env : InputEnv) :
    Guard (s.onProviderDone reason err usage seq env) := by
  unfold State.onProviderDone
  split
  · exact h
  · have h1 : Guard { s with q := usageAccumulate s.q usage seq } := by
      obtain ⟨_, _, _, _, he⟩ := usageAccumulate_frame s.q usage seq
      exact h.unseen (Unseen.of_eq rfl (by rw [he]) rfl rfl rfl)
    split
    · exact h1.tail (Tail.push _ rfl)
    · exact h1.commitAndBranch _ _ env

/-- **One step** under the condition keeps the invariant. -/
theorem Guard.step {s t : State} {l : Label} (h : Guard s) (hok : allowOwn s l = true)
    (hs : step s l = some t) : Guard t := by
  have ht := took_of_step hs
  obtain ⟨m, env⟩ := l
  cases ht with
  | input msg _ => exact h.tail (Tail.sessionInput _ _ env s)
  | cancel _ => exact h.tail (Tail.sessionCancel s)
  | resolve r d reason v hv =>
    refine h.resolve d reason env hv ?_
    rintro rfl hd hval a rest hrem
    simpa [allowOwn, hv, hd, hval, hrem] using hok
  | complete id out inv =>
    unfold State.asyncToolComplete
    split
    · exact h.unseen (Unseen.of_eq rfl rfl rfl rfl rfl)
    · next a rest hrem =>
      refine Guard.unseen ?_ (Unseen.push _ rfl)
      refine h.unseen ⟨rfl, ?_, rfl, ⟨[], rfl, by simp⟩, ⟨[], rfl, by simp⟩⟩
      intro b hb
      rw [append_async] at hb
      exact .inl ((asyncPendingRemove_mem hrem).2 b hb)
  | text serial chunk _ =>
    obtain ⟨_, he⟩ := onProviderText_frame s.q chunk
    exact h.unseen (Unseen.of_eq rfl (by rw [he]) rfl rfl rfl)
  | thinking serial chunk _ =>
    obtain ⟨_, he⟩ := onProviderThinking_frame s.q chunk
    exact h.unseen (Unseen.of_eq rfl (by rw [he]) rfl rfl rfl)
  | toolCall serial id name args _ =>
    obtain ⟨_, he⟩ := onProviderToolCall_frame s.q id name args
    exact h.unseen (Unseen.of_eq rfl (by rw [he]) rfl rfl rfl)
  | done serial reason err usage f _ =>
    refine Guard.onProviderDone ?_ _ _ _ _ _
    refine Guard.tail (s := s.land serial) ?_ (Tail.emit _ rfl (fun _ => rfl))
    exact h.unseen (Unseen.of_eq rfl rfl rfl rfl rfl)
  | handlerRet trc out k v inv rest hst =>
    have hp := h.pop hst
    unfold State.handlerReturned
    split
    · exact hp
    · split
      · refine Guard.afterInvoke ?_ k env
        refine hp.unseen ⟨rfl, ?_, rfl, ⟨[], rfl, by simp⟩, ⟨[], rfl, by simp⟩⟩
        intro b hb
        rcases mem_append.mp hb with h1 | h1
        · exact .inl h1
        · rw [mem_singleton] at h1; subst h1; exact .inr rfl
      · refine Guard.unseen ?_ (Unseen.push _ rfl)
        exact hp.unseen (Unseen.of_eq rfl (append_async _ _) rfl rfl rfl)
  | retSubmit k rest hst =>
    have hp := h.pop hst
    unfold submitAccepted
    split
    · exact hp.tail (Tail.returnInput _ _ _)
    · exact hp.tail (Tail.returnInput _ _ _)
    · exact hp
  | retConfirm i rest hst => exact Guard.dispatchFrom env _ _ (h.pop hst)
  | retToolStart k v rest hst => exact h.callHandler hst
  | retToolDone k rest hst => exact (h.pop hst).afterInvoke k env
  | retCompleteDone rest hst => exact (h.pop hst).tail (Tail.tailCheck _ env _)
  | retErrFinish reason rest hst => exact (h.pop hst).tail (Tail.finalize _ env _)
  | retProvErr c rest hst => exact (h.pop hst).commitAndBranch _ _ env
  | retProvCancel k rest hst _ | retCancelTool i k rest hst _ => exact (h.pop hst).tail (Tail.cancelFrom k _ _ _)
  | retSessDone rest hst => exact (h.pop hst).tail (Tail.destroy _ _)
  | retCompactDone rest hst _ => exact (h.pop hst).tail (Tail.autoRetryPending env _)
  | setContextWindow n _ | create n _ => exact h.unseen (Unseen.of_eq rfl rfl rfl rfl rfl)
  | destroy _ _ => exact h.tail (Tail.destroy _ s)

theorem guard_init (conf : Conf) (contextWindow : ℕ) (store : List Slot) (nextUid : ℕ) :
    Guard (init conf contextWindow store nextUid) :=
  ⟨fun _ h => absurd h (by simp [init, createSession]), fun _ _ h => absurd h (by simp [init, createSession]),
    fun _ h => absurd h (by simp [init, createSession]), fun _ _ h => absurd h (by simp [init, createSession]),
    nodup_nil, fun _ _ h => absurd h (by simp [init, createSession]),
    fun _ _ _ h => absurd h (by simp [init, createSession]), confirmGate_nil⟩

def gatedConf : Conf := { tools := [⟨bytes "rm", true⟩], hasConfirm := true }

/-- The model asks for two gated calls `(id₁, args₁)` and `(id₂, args₂)`; the host is asked about
both; then it resolves the second one Allow. -/
def allowSecond (id₁ id₂ : Bytes) : List Label :=
  [⟨.input hello, {}⟩, ⟨.ret, {}⟩,
    ⟨.toolCall 0 (some id₁) (some (bytes "rm")) (some (bytes "1")), {}⟩,
    ⟨.toolCall 0 (some id₂) (some (bytes "rm")) (some (bytes "2")), {}⟩,
    ⟨.done 0 .toolUse .ok none, {}⟩, ⟨.ret, {}⟩, ⟨.ret, {}⟩,
    ⟨.resolve 1 .allow [], {}⟩, ⟨.ret, {}⟩]

def invocations (T : List Obs) : ℕ :=
  T.countP (fun o => match o with | .invoked _ _ _ => true | _ => false)

/-- An invocation of a gated call that another call's resolver caused. -/
def mixedUp (o : Obs) : Bool :=
  match o with
  | .invoked _ v cause => v.tool.needsConfirm && v.confirmSet && v.owner ≠ cause
  | _ => false

theorem not_gate_of_mixedUp {T : List Obs} (h : T.any mixedUp = true) : ¬ ConfirmGate T := by
  intro hg
  obtain ⟨o, ho, hm⟩ := any_eq_true.mp h
  cases o with
  | invoked inv v cause =>
    simp only [mixedUp, Bool.and_eq_true, decide_eq_true_eq] at hm
    obtain ⟨⟨h1, h2⟩, h3⟩ := hm
    obtain ⟨post, rest, rfl⟩ := append_of_mem ho
    obtain ⟨r, hc, hown, -⟩ := hg post inv v cause rest rfl h1 h2
    exact h3 (hown.trans hc.symm)
  | _ => simp [mixedUp] at hm

end Libx.Agent
