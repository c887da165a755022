import Libx.Xpp.Scheduler

/-!
# Libx.Xpp.SchedulerExact — the scheduler between the steps

A task has one entry at most, in a queue or in a worker's hand; a task that is woken has one, or is polled since.
-/

namespace Libx.Xpp

open List

namespace Scheduler

variable {m : ℕ} {s s' : Scheduler m} {t u : ℕ} {w v : Fin m} {p q : Spot m}

/-! ### The invariant -/

def Resting (s : Scheduler m) (t : ℕ) : Prop :=
  (∀ w, ¬s.Polled t w) ∧
    ((s.tasks t).resolved = false ∧ ((s.tasks t).state = .pending ∨ (s.tasks t).state = .detached) ∧
        (s.tasks t).marked = false ∨
      (s.tasks t).resolved = true ∧ ((s.tasks t).state = .completed ∨ (s.tasks t).freed = true ∧ (s.tasks t).marked = false))

/-- A task that worker `w` polls. -/
def Active (s : Scheduler m) (t : ℕ) (w : Fin m) : Prop :=
  s.Polled t w ∧ (∀ v, s.Polled t v → v = w) ∧
    ((s.tasks t).state = .running ∧ (s.tasks t).marked = false ∨ (s.tasks t).state = .detached) ∧
    ((s.tasks t).resolved = true ↔ s.workers w = .finishing t)

/-- A spawned task. -/
structure Good (s : Scheduler m) (t : ℕ) : Prop where
  phase : s.Resting t ∨ ∃ w, s.Active t w
  marked : (s.tasks t).marked = true → (s.tasks t).handle = false
  woken : (s.tasks t).woken = true → (s.tasks t).resolved = false → ∃ p, s.At t p

/-- The entries of the tasks. -/
structure Entries (s : Scheduler m) : Prop where
  once : ∀ t p q, s.At t p → s.At t q → p = q
  locals : ∀ w, (s.locals w).Nodup
  global : s.global.Nodup
  lt : ∀ t p, s.At t p → t < s.next

structure Inv (s : Scheduler m) : Prop where
  entries : s.Entries
  good : ∀ t < s.next, s.Good t
  claimed : ∀ t w, s.Polled t w → t < s.next
  second : ∀ w t, s.workers w = .tryingDetached t → (s.tasks t).state ≠ .pending ∧ ∀ v, ¬s.Polled t v
  owner : s.foreign = false

/-! ### Entries -/

/-- A step leaves the entries of the other tasks, and `t` has the entry `q` afterwards. -/
structure Moved (s s' : Scheduler m) (t : ℕ) (q : Option (Spot m)) : Prop where
  others : ∀ u r, u ≠ t → (s'.At u r ↔ s.At u r)
  self : ∀ r, s'.At t r ↔ q = some r

theorem Entries.moved {q : Option (Spot m)} (h : s.Entries) (hm : Moved s s' t q) (ht : t < s'.next) (hn : s.next ≤ s'.next)
    (hl : ∀ w, (s'.locals w).Nodup) (hg : s'.global.Nodup) : s'.Entries where
  once u p r hp hr := by
    by_cases hu : u = t
    · subst hu
      exact Option.some.inj (((hm.self p).1 hp).symm.trans ((hm.self r).1 hr))
    · exact h.once u p r ((hm.others u p hu).1 hp) ((hm.others u r hu).1 hr)
  locals := hl
  global := hg
  lt u p hp := by
    by_cases hu : u = t
    · exact hu ▸ ht
    · exact lt_of_lt_of_le (h.lt u p ((hm.others u p hu).1 hp)) hn

theorem Entries.same {z : Scheduler m} (h : s.Entries) (hl : z.locals = s.locals) (hg : z.global = s.global)
    (hh : ∀ v, (z.workers v).hand = (s.workers v).hand) (hn : s.next ≤ z.next) :
    z.Entries ∧ ∀ u r, z.At u r ↔ s.At u r := by
  have hat : ∀ u r, z.At u r ↔ s.At u r := fun u r => by
    cases r with
    | loc v => rw [At, At, hl]
    | glob => rw [At, At, hg]
    | hand v => rw [At, At, hh v]
  refine ⟨⟨fun u p r hp hr => h.once u p r ((hat u p).1 hp) ((hat u r).1 hr), fun v => ?_, ?_, fun u p hp => ?_⟩, hat⟩
  · rw [hl]
    exact h.locals v
  · rw [hg]
    exact h.global
  · exact lt_of_lt_of_le (h.lt u p ((hat u p).1 hp)) hn

/-! ### A task -/

theorem Good.frame (h : s.Good t) (ht : s'.tasks t = s.tasks t)
    (hw : ∀ v, s.Polled t v ∨ s'.Polled t v → s'.workers v = s.workers v)
    (ha : (s.tasks t).resolved = false → ∀ r, s.At t r → ∃ r', s'.At t r') : s'.Good t := by
  have hp : ∀ v, s'.Polled t v ↔ s.Polled t v := fun v => by
    constructor
    · intro hv
      rw [Polled, ← hw v (.inr hv)]
      exact hv
    · intro hv
      rw [Polled, hw v (.inl hv)]
      exact hv
  refine ⟨?_, ht ▸ h.marked, fun h1 h2 => ?_⟩
  · rcases h.phase with ⟨h1, h2⟩ | ⟨w, h1, h2, h3, h4⟩
    · exact .inl ⟨fun v hv => h1 v ((hp v).1 hv), ht ▸ h2⟩
    · refine .inr ⟨w, (hp w).2 h1, fun v hv => h2 v ((hp v).1 hv), ht ▸ h3, ?_⟩
      rw [ht, hw w (.inl h1)]
      exact h4
  · obtain ⟨r, hr⟩ := h.woken (ht ▸ h1) (ht ▸ h2)
    exact ha (ht ▸ h2) r hr


/-! ### Queues -/

@[simp] theorem schedule_tasks (s : Scheduler m) (w : Fin m) (t : ℕ) : (s.schedule w t).tasks = s.tasks := by
  unfold schedule
  split <;> rfl

@[simp] theorem schedule_workers (s : Scheduler m) (w : Fin m) (t : ℕ) : (s.schedule w t).workers = s.workers := by
  unfold schedule
  split <;> rfl

@[simp] theorem schedule_next (s : Scheduler m) (w : Fin m) (t : ℕ) : (s.schedule w t).next = s.next := by
  unfold schedule
  split <;> rfl

@[simp] theorem schedule_foreign (s : Scheduler m) (w : Fin m) (t : ℕ) : (s.schedule w t).foreign = s.foreign := by
  unfold schedule
  split <;> rfl

theorem pushGlobal_moved (h : ∀ p, ¬s.At t p) : Moved s (s.pushGlobal t) t (some .glob) where
  others u r hu := by
    cases r with
    | loc v | hand v => exact .rfl
    | glob => simp [At, pushGlobal, hu]
  self r := by
    cases r with
    | loc v => simpa [At, pushGlobal] using h (.loc v)
    | glob => simp [At, pushGlobal]
    | hand v => simpa [At, pushGlobal] using h (.hand v)

theorem setLocal_moved (h : ∀ p, ¬s.At t p) : Moved s (s.setLocal w (s.locals w ++ [t])) t (some (.loc w)) where
  others u r hu := by
    cases r with
    | loc v =>
      by_cases hv : v = w
      · subst hv
        simp [At, setLocal, hu]
      · simp [At, setLocal, hv]
    | glob | hand v => exact .rfl
  self r := by
    cases r with
    | loc v =>
      by_cases hv : v = w
      · subst hv
        simp [At, setLocal]
      · have := h (.loc v)
        simp_all [At, setLocal, Ne.symm hv]
    | glob => simpa [At, setLocal] using h .glob
    | hand v => simpa [At, setLocal] using h (.hand v)

variable {l : List ℕ}

theorem nodup_snoc (h : l.Nodup) (ht : t ∉ l) : (l ++ [t]).Nodup :=
  nodup_append.2 ⟨h, nodup_singleton t, fun _ ha _ hb hab => ht (mem_singleton.1 hb ▸ hab ▸ ha)⟩

theorem Entries.pushGlobal (h : s.Entries) (ht : t < s.next) (hn : ∀ p, ¬s.At t p) :
    (s.pushGlobal t).Entries ∧ Moved s (s.pushGlobal t) t (some .glob) :=
  ⟨h.moved (pushGlobal_moved hn) ht le_rfl h.locals (nodup_snoc h.global (hn .glob)), pushGlobal_moved hn⟩

theorem Entries.setLocal (h : s.Entries) (ht : t < s.next) (hn : ∀ p, ¬s.At t p) :
    (s.setLocal w (s.locals w ++ [t])).Entries ∧ Moved s (s.setLocal w (s.locals w ++ [t])) t (some (.loc w)) := by
  refine ⟨h.moved (setLocal_moved hn) ht le_rfl (fun v => ?_) h.global, setLocal_moved hn⟩
  by_cases hv : v = w
  · subst hv
    simpa [Scheduler.setLocal] using nodup_snoc (h.locals v) (hn (.loc v))
  · simpa [Scheduler.setLocal, hv] using h.locals v

theorem Entries.schedule (h : s.Entries) (ht : t < s.next) (hn : ∀ p, ¬s.At t p) :
    (s.schedule w t).Entries ∧ ∃ q, Moved s (s.schedule w t) t (some q) := by
  unfold Scheduler.schedule
  split
  · exact ⟨(h.setLocal ht hn).1, _, (h.setLocal ht hn).2⟩
  · exact ⟨(h.pushGlobal ht hn).1, _, (h.pushGlobal ht hn).2⟩

variable {x : WorkerPhase}

theorem Entries.take (h : s.Entries) (hp : (s.locals v).Perm (t :: l))
    (hw : (s.workers w).hand = none) (hx : x.hand = some t) :
    ((s.setLocal v l).setWorker w x).Entries ∧ Moved s ((s.setLocal v l).setWorker w x) t (some (.hand w)) := by
  have hd : t ∉ l ∧ l.Nodup := nodup_cons.1 (hp.nodup_iff.1 (h.locals v))
  have hat : s.At t (.loc v) := hp.mem_iff.2 mem_cons_self
  have hm : Moved s ((s.setLocal v l).setWorker w x) t (some (.hand w)) := by
    constructor
    · intro u r hu
      cases r with
      | loc v' =>
        by_cases hv : v' = v
        · subst hv
          simp [At, setWorker, Scheduler.setLocal, hp.mem_iff, hu]
        · simp [At, setWorker, Scheduler.setLocal, hv]
      | glob => exact .rfl
      | hand v' =>
        by_cases hv : v' = w
        · subst hv
          simp [At, setWorker, Scheduler.setLocal, hx, hw, Ne.symm hu]
        · simp [At, setWorker, Scheduler.setLocal, hv]
    · intro r
      cases r with
      | loc v' =>
        by_cases hv : v' = v
        · subst hv
          simpa [At, setWorker, Scheduler.setLocal] using hd.1
        · simpa [At, setWorker, Scheduler.setLocal, hv] using fun h1 => hv (Spot.loc.inj (h.once t _ _ h1 hat))
      | glob => simpa [At, setWorker, Scheduler.setLocal] using fun h1 => nomatch h.once t .glob _ h1 hat
      | hand v' =>
        by_cases hv : v' = w
        · subst hv
          simp [At, setWorker, Scheduler.setLocal, hx]
        · simpa [At, setWorker, Scheduler.setLocal, hv, Ne.symm hv] using fun h1 => nomatch h.once t (.hand v') _ h1 hat
  refine ⟨h.moved hm (h.lt t _ hat) le_rfl (fun v' => ?_) h.global, hm⟩
  by_cases hv : v' = v
  · subst hv
    simpa [setWorker, Scheduler.setLocal] using hd.2
  · simpa [setWorker, Scheduler.setLocal, hv] using h.locals v'

theorem Entries.grab {rest : List ℕ} {n k : ℕ} {o : Option ℕ} (h : s.Entries) (hg : s.global = t :: rest)
    (hw : s.workers w = .grabbing o n)
    (hs : s' = { s.setLocal w (s.locals w ++ [t]) with
      global := rest, workers := Function.update s.workers w (.grabbing o k) }) :
    s'.Entries ∧ Moved s s' t (some (.loc w)) := by
  have hd : t ∉ rest ∧ rest.Nodup := nodup_cons.1 (hg ▸ h.global)
  have hat : s.At t .glob := by
    rw [At, hg]
    exact mem_cons_self
  have hhand : ∀ v, (s'.workers v).hand = (s.workers v).hand := fun v => by
    subst hs
    by_cases hv : v = w
    · subst hv
      simp [hw, WorkerPhase.hand]
    · simp [hv]
  have hm : Moved s s' t (some (.loc w)) := by
    constructor
    · intro u r hu
      cases r with
      | loc v =>
        by_cases hv : v = w
        · subst hv
          simp [At, hs, Scheduler.setLocal, hu]
        · simp [At, hs, Scheduler.setLocal, hv]
      | glob => simp [At, hs, Scheduler.setLocal, hg, hu]
      | hand v => rw [At, At, hhand v]
    · intro r
      cases r with
      | loc v =>
        by_cases hv : v = w
        · subst hv
          simp [At, hs, Scheduler.setLocal]
        · simpa [At, hs, Scheduler.setLocal, hv, Ne.symm hv] using fun h1 => nomatch h.once t (.loc v) _ h1 hat
      | glob => simpa [At, hs, Scheduler.setLocal] using hd.1
      | hand v =>
        have : ¬s.At t (.hand v) := fun h1 => nomatch h.once t (.hand v) _ h1 hat
        rw [At, hhand v]
        simpa [At] using this
  have hn : s'.next = s.next := by rw [hs]; rfl
  refine ⟨h.moved hm (hn ▸ h.lt t _ hat) hn.ge (fun v => ?_) ?_, hm⟩
  · by_cases hv : v = w
    · subst hv
      have : t ∉ s.locals v := fun h1 => nomatch h.once t (.loc v) .glob h1 hat
      simpa [hs, Scheduler.setLocal] using nodup_snoc (h.locals v) this
    · simpa [hs, Scheduler.setLocal, hv] using h.locals v
  · rw [hs]
    exact hd.2

theorem Entries.release {z : Scheduler m} (h : s.Entries) (hw : (s.workers w).hand = some t) (hx : x.hand = none)
    (hl : z.locals = s.locals) (hg : z.global = s.global) (hs : z.workers = Function.update s.workers w x)
    (hn : z.next = s.next) : z.Entries ∧ Moved s z t none := by
  have hat : s.At t (.hand w) := hw
  have hm : Moved s z t none := by
    constructor
    · intro u r hu
      cases r with
      | loc v => rw [At, At, hl]
      | glob => rw [At, At, hg]
      | hand v =>
        by_cases hv : v = w
        · subst hv
          simp [At, hs, hx, hw, Ne.symm hu]
        · simp [At, hs, hv]
    · intro r
      cases r with
      | loc v => simpa [At, hl] using fun h1 => nomatch h.once t (.loc v) _ h1 hat
      | glob => simpa [At, hg] using fun h1 => nomatch h.once t .glob _ h1 hat
      | hand v =>
        by_cases hv : v = w
        · subst hv
          simp [At, hs, hx]
        · simpa [At, hs, hv] using fun h1 => hv (Spot.hand.inj (h.once t (.hand v) _ h1 hat))
  refine ⟨h.moved hm (hn ▸ h.lt t _ hat) hn.ge (fun v => ?_) ?_, hm⟩
  · rw [hl]
    exact h.locals v
  · rw [hg]
    exact h.global

/-! ### A worker without a task -/

theorem polled_update (hw : s'.workers = Function.update s.workers w x)
    (h1 : (s.workers w).claimed = none) (h2 : x.claimed = none) : s'.Polled t v ↔ s.Polled t v := by
  by_cases hv : v = w
  · subst hv
    simp [Polled, hw, h1, h2]
  · simp [Polled, hw, hv]

theorem Inv.quiet (h : s.Inv) (he : s'.Entries)
    (ha : ∀ u r, (s.tasks u).resolved = false → s.At u r → ∃ r', s'.At u r')
    (ht : s'.tasks = s.tasks) (hn : s'.next = s.next) (hf : s'.foreign = s.foreign)
    (hw : s'.workers = Function.update s.workers w x) (h1 : (s.workers w).claimed = none) (h2 : x.claimed = none)
    (hx : ∀ t, x = .tryingDetached t → (s.tasks t).state ≠ .pending ∧ ∀ v, ¬s.Polled t v) : s'.Inv where
  entries := he
  good u hu := by
    refine (h.good u (hn ▸ hu)).frame (by rw [ht]) (fun v hv => ?_) (fun hr r => ha u r hr)
    have hp : s.Polled u v := hv.elim id (polled_update hw h1 h2).1
    have hne : v ≠ w := fun e => by
      subst e
      rw [Polled, h1] at hp
      exact nomatch hp
    rw [hw, Function.update_of_ne hne]
  claimed u v hp := hn ▸ h.claimed u v ((polled_update hw h1 h2).1 hp)
  second v u hv := by
    have key : (s.tasks u).state ≠ .pending ∧ ∀ v, ¬s.Polled u v := by
      by_cases e : v = w
      · subst e
        rw [hw, Function.update_self] at hv
        exact hx u hv
      · rw [hw, Function.update_of_ne e] at hv
        exact h.second v u hv
    rw [ht]
    exact ⟨key.1, fun v' hv' => key.2 v' ((polled_update hw h1 h2).1 hv')⟩
  owner := hf.trans h.owner

theorem Inv.setWorker (h : s.Inv) (hh : x.hand = (s.workers w).hand)
    (h1 : (s.workers w).claimed = none) (h2 : x.claimed = none)
    (hx : ∀ t, x = .tryingDetached t → (s.tasks t).state ≠ .pending ∧ ∀ v, ¬s.Polled t v) : (s.setWorker w x).Inv := by
  have hs := h.entries.same (z := s.setWorker w x) rfl rfl (fun v => by
    by_cases hv : v = w
    · subst hv
      simpa [Scheduler.setWorker] using hh
    · simp [Scheduler.setWorker, hv]) le_rfl
  exact h.quiet hs.1 (fun u r _ hr => ⟨r, (hs.2 u r).2 hr⟩) rfl rfl rfl rfl h1 h2 hx

theorem Moved.exists_at {q : Option (Spot m)} (h : Moved s s' t q) (hq : q.isSome ∨ u ≠ t) {r : Spot m} (hr : s.At u r) :
    ∃ r', s'.At u r' := by
  by_cases hu : u = t
  · obtain ⟨q, rfl⟩ := Option.isSome_iff_exists.1 (hq.resolve_right (not_not.2 hu))
    exact ⟨q, hu ▸ (h.self q).2 rfl⟩
  · exact ⟨r, (h.others u r hu).2 hr⟩

theorem Inv.take (h : s.Inv) (hp : (s.locals v).Perm (t :: l))
    (hw : (s.workers w).hand = none) (hc : (s.workers w).claimed = none) (hx : x.hand = some t) (hx' : x.claimed = none)
    (hne : ∀ t, x ≠ .tryingDetached t) : ((s.setLocal v l).setWorker w x).Inv := by
  obtain ⟨he, hm⟩ := h.entries.take hp hw hx
  exact h.quiet he (fun u r _ hr => hm.exists_at (.inl rfl) hr) rfl rfl rfl rfl hc hx' (fun t e => absurd e (hne t))

theorem Inv.grab {rest : List ℕ} {n k : ℕ} {o : Option ℕ} (h : s.Inv) (hg : s.global = t :: rest)
    (hw : s.workers w = .grabbing o n) :
    Inv { s.setLocal w (s.locals w ++ [t]) with
      global := rest, workers := Function.update s.workers w (.grabbing o k) } := by
  obtain ⟨he, hm⟩ := h.entries.grab (k := k) hg hw rfl
  refine h.quiet he (fun u r _ hr => hm.exists_at (.inl rfl) hr) rfl rfl rfl rfl ?_ rfl (fun t e => nomatch e)
  rw [hw]
  rfl

theorem perm_getLast (h : l.getLast? = some t) : l.Perm (t :: l.dropLast) := by
  obtain ⟨l', rfl⟩ := List.getLast?_eq_some_iff.1 h
  simp

/-! ### A step with a task -/

theorem Inv.touch (h : s.Inv) (he : s'.Entries) (ha : ∀ u, u ≠ t → ∀ r, s.At u r → ∃ r', s'.At u r')
    (ht : ∀ u, u ≠ t → s'.tasks u = s.tasks u)
    (hw : ∀ u, u ≠ t → ∀ v, s.Polled u v ∨ s'.Polled u v → s'.workers v = s.workers v)
    (hn : s'.next = s.next) (hf : s'.foreign = s.foreign) (hlt : t < s.next) (hg : s'.Good t)
    (hs : ∀ v u, s'.workers v = .tryingDetached u → s.workers v = .tryingDetached u)
    (h2 : ∀ v, s'.workers v = .tryingDetached t → (s'.tasks t).state ≠ .pending ∧ ∀ v, ¬s'.Polled t v) : s'.Inv where
  entries := he
  good u hu := by
    by_cases e : u = t
    · exact e ▸ hg
    · exact (h.good u (hn ▸ hu)).frame (ht u e) (hw u e) (fun _ => ha u e)
  claimed u v hp := by
    by_cases e : u = t
    · exact e ▸ hn ▸ hlt
    · refine hn ▸ h.claimed u v ?_
      rw [Polled, ← hw u e v (.inr hp)]
      exact hp
  second v u hv := by
    by_cases e : u = t
    · exact e ▸ h2 v (e ▸ hv)
    · have key := h.second v u (hs v u hv)
      refine ⟨(ht u e).symm ▸ key.1, fun v' hv' => key.2 v' ?_⟩
      rw [Polled, ← hw u e v' (.inr hv')]
      exact hv'
  owner := hf.trans h.owner

theorem Inv.unresolved (h : s.Inv) (hh : (s.workers w).hand = some t) (hp : ∀ v, ¬s.Polled t v)
    (hf : (s.tasks t).freed = false) (hst : (s.tasks t).state = .pending ∨ (s.tasks t).state = .detached) :
    (s.tasks t).resolved = false ∧ (s.tasks t).marked = false := by
  rcases (h.good t (h.entries.lt t (.hand w) hh)).phase with ⟨-, hr | ⟨-, hr | hr⟩⟩ | ⟨v, hv⟩
  · exact ⟨hr.1, hr.2.2⟩
  · rcases hst with hst | hst
    all_goals exact nomatch hst.symm.trans hr
  · exact nomatch hf.symm.trans hr.1
  · exact absurd hv.1 (hp v)

theorem Inv.claim (h : s.Inv) (hh : (s.workers w).hand = some t)
    (hr : (s.tasks t).resolved = false ∧ (s.tasks t).marked = false) (hp : ∀ v, ¬s.Polled t v) : (s.claim w t).Inv := by
  obtain ⟨hr, hm⟩ := hr
  have hlt := h.entries.lt t (.hand w) hh
  obtain ⟨he, hmv⟩ := h.entries.release (z := s.claim w t) (x := .polling t) hh rfl rfl rfl rfl rfl
  have hself : (s.claim w t).Polled t w := by simp [Polled, Scheduler.claim, setTask, Scheduler.setWorker, WorkerPhase.claimed]
  have honly : ∀ v, (s.claim w t).Polled t v → v = w := fun v hv => by
    by_contra e
    exact hp v (by simpa [Polled, Scheduler.claim, setTask, Scheduler.setWorker, e] using hv)
  refine h.touch he (fun u hu r => hmv.exists_at (.inr hu)) (fun u hu => ?_) (fun u hu v hv => ?_) rfl rfl hlt ?_
    (fun v u hv => ?_) (fun v hv => ?_)
  · simp [Scheduler.claim, setTask, Scheduler.setWorker, hu]
  · by_cases e : v = w
    · subst e
      have hc : (s.workers v).claimed = none := by
        cases hx : s.workers v <;> simp_all [WorkerPhase.hand, WorkerPhase.claimed]
      rcases hv with hv | hv
      · exact nomatch hc.symm.trans hv
      · simp [Polled, Scheduler.claim, setTask, Scheduler.setWorker, WorkerPhase.claimed, Ne.symm hu] at hv
    · simp [Scheduler.claim, setTask, Scheduler.setWorker, e]
  · refine ⟨.inr ⟨w, hself, honly, .inl ?_, ?_⟩, ?_, ?_⟩
    · simp [Scheduler.claim, setTask, Scheduler.setWorker, hm]
    · simp [Scheduler.claim, setTask, Scheduler.setWorker, hr]
    · simp [Scheduler.claim, setTask, Scheduler.setWorker, hm]
    · simp [Scheduler.claim, setTask, Scheduler.setWorker]
  · by_cases e : v = w
    · subst e
      simp [Scheduler.claim, setTask, Scheduler.setWorker] at hv
    · simpa [Scheduler.claim, setTask, Scheduler.setWorker, e] using hv
  · by_cases e : v = w
    · subst e
      simp [Scheduler.claim, setTask, Scheduler.setWorker] at hv
    · -- two workers have the task in their hands
      have hv' : s.workers v = .tryingDetached t := by simpa [Scheduler.claim, setTask, Scheduler.setWorker, e] using hv
      have : s.At t (.hand v) := by simp [At, hv', WorkerPhase.hand]
      exact absurd (Spot.hand.inj (h.entries.once t (.hand v) (.hand w) this hh)) e

theorem Inv.drop_entry (h : s.Inv) (hh : (s.workers w).hand = some t) (hr : (s.tasks t).resolved = true) :
    (s.setWorker w .popping).Inv := by
  obtain ⟨he, hm⟩ := h.entries.release (z := s.setWorker w .popping) (x := .popping) hh rfl rfl rfl rfl rfl
  refine h.quiet he (fun u r hu => hm.exists_at (.inr fun e => ?_)) rfl rfl rfl rfl ?_ rfl (fun t e => nomatch e)
  · exact Bool.false_ne_true (hu.symm.trans (e ▸ hr))
  · cases hx : s.workers w <;> simp_all [WorkerPhase.hand, WorkerPhase.claimed]

variable {b : Bool}

theorem Inv.poller {y : Task m} (h : s.Inv) (hp : s.Polled t w) (hx : x.hand = none)
    (hx' : x.claimed = none ∨ x.claimed = some t) (hne : ∀ u, x ≠ .tryingDetached u)
    (hl : s'.locals = s.locals) (hgl : s'.global = s.global) (hw : s'.workers = Function.update s.workers w x)
    (ht : s'.tasks = Function.update s.tasks t y) (hn : s'.next = s.next) (hf : s'.foreign = s.foreign)
    (hg : (∀ r, s'.At t r ↔ s.At t r) → (∀ v, v ≠ w → ¬s'.Polled t v) → s.Active t w → s'.Good t) : s'.Inv := by
  have hlt := h.claimed t w hp
  have hact : s.Active t w := by
    rcases (h.good t hlt).phase with h1 | ⟨v, h1⟩
    · exact absurd hp (h1.1 w)
    · exact (h1.2.1 w hp) ▸ h1
  have hhand : (s.workers w).hand = none := by
    unfold Polled at hp
    cases hx : s.workers w <;> simp_all [WorkerPhase.hand, WorkerPhase.claimed]
  obtain ⟨he, hat⟩ := h.entries.same hl hgl (fun v => by
    by_cases e : v = w
    · subst e
      simp [hw, hx, hhand]
    · simp [hw, e]) hn.ge
  refine h.touch he (fun u _ r hr => ⟨r, (hat u r).2 hr⟩) (fun u hu => by simp [ht, hu]) (fun u hu v hv => ?_) hn hf hlt
    (hg (hat t) (fun v e hv => ?_) hact) (fun v u hv => ?_) (fun v hv => ?_)
  · by_cases e : v = w
    · subst e
      unfold Polled at hp
      rcases hx' with hx' | hx' <;> simp [Polled, hp, hw, hx', Ne.symm hu] at hv
    · simp [hw, e]
  · exact e (hact.2.1 v (by simpa [Polled, hw, e] using hv))
  · by_cases e : v = w
    · subst e
      exact absurd (by simpa [hw] using hv) (hne u)
    · simpa [hw, e] using hv
  · by_cases e : v = w
    · subst e
      exact absurd (by simpa [hw] using hv) (hne t)
    · exact absurd hp ((h.second v t (by simpa [hw, e] using hv)).2 w)

theorem Good.of_finishing {y : Task m} (ha : s.Active t w)
    (hg : s.Good t) (hp : s'.Polled t w) (ho : ∀ v, v ≠ w → ¬s'.Polled t v) (hw : s'.workers w = .finishing t)
    (ht : s'.tasks t = y) (hy : y = { s.tasks t with resolved := true }) : s'.Good t := by
  subst hy
  refine ⟨.inr ⟨w, hp, fun v hv => by_contra fun e => ho v e hv, ?_, ?_⟩, ?_, fun _ h2 => ?_⟩
  · rw [ht]
    exact ha.2.2.1
  · simp [ht, hw]
  · rw [ht]
    exact hg.marked
  · rw [ht] at h2
    exact nomatch h2

/-! ### Steps -/

theorem Inv.steal {i : ℕ} (h : s.Inv) (hw : s.workers w = .stealing i) : (s.stepWorker w b).Inv := by
  rw [Scheduler.stepWorker, hw]
  have on : ∀ j, (s.setWorker w (.stealing j)).Inv := fun j =>
    h.setWorker (by rw [hw]; rfl) (by rw [hw]; rfl) rfl (fun t e => nomatch e)
  simp only
  by_cases hi : i < m
  · rw [if_pos hi]
    cases hl : s.locals (victim w i) with
    | nil => exact on _
    | cons t rest =>
      simp only
      split_ifs
      · exact h.take (hl ▸ .rfl) (by rw [hw]; rfl) (by rw [hw]; rfl) rfl rfl (fun u e => nomatch e)
      · exact on _
  · rw [if_neg hi]
    exact h.setWorker (by rw [hw]; rfl) (by rw [hw]; rfl) rfl (fun t e => nomatch e)

theorem Inv.tryPending (h : s.Inv) (hw : s.workers w = .trying t) (hc : s.Clean (.worker w b)) : (s.stepWorker w b).Inv := by
  simp only [Clean] at hc
  rw [Scheduler.stepWorker, hw]
  simp only [hw] at hc
  have hh : (s.workers w).hand = some t := by rw [hw]; rfl
  simp only
  split_ifs with hst
  · exact h.claim hh (h.unresolved hh hc.1 hc.2 (.inl hst)) hc.1
  · refine h.setWorker (by rw [hw]; rfl) (by rw [hw]; rfl) rfl (fun u e => ?_)
    cases e
    exact ⟨hst, hc.1⟩

theorem Inv.tryDetached (h : s.Inv) (hw : s.workers w = .tryingDetached t) (hc : s.Clean (.worker w b)) : (s.stepWorker w b).Inv := by
  simp only [Clean] at hc
  rw [Scheduler.stepWorker, hw]
  simp only [hw] at hc
  have hh : (s.workers w).hand = some t := by rw [hw]; rfl
  simp only
  split_ifs with hst
  · exact h.claim hh (h.unresolved hh hc.1 hc.2 (.inr hst)) hc.1
  · refine h.drop_entry hh ?_
    rcases (h.good t (h.entries.lt t (.hand w) hh)).phase with ⟨-, ⟨-, h1 | h1, -⟩ | ⟨hr, -⟩⟩ | ⟨v, hv⟩
    · exact absurd h1 (h.second w t hw).1
    · exact absurd h1 hst
    · exact hr
    · exact absurd hv.1 (hc.1 v)

theorem Inv.poll (h : s.Inv) (hw : s.workers w = .polling t) : (s.stepWorker w b).Inv := by
  rw [Scheduler.stepWorker, hw]
  have hp : s.Polled t w := by rw [Polled, hw]; rfl
  have hgood := h.good t (h.claimed t w hp)
  simp only
  split_ifs
  · refine h.poller (x := .finishing t) hp rfl (.inr rfl) (fun u e => nomatch e) rfl rfl rfl rfl rfl rfl
      (fun _ ho ha => Good.of_finishing ha hgood ?_ ho ?_ ?_ rfl)
    all_goals simp [Polled, Scheduler.setWorker, setTask, WorkerPhase.claimed]
  · refine h.poller (x := .pausing t) (y := s.tasks t) hp rfl (.inr rfl) (fun u e => nomatch e) rfl rfl rfl ?_ rfl rfl
      (fun hat ho ha => ?_)
    · simp [Scheduler.setWorker]
    · refine ⟨.inr ⟨w, ?_, fun v hv => by_contra fun e => ho v e hv, ha.2.2.1, ?_⟩, hgood.marked, fun h1 h2 => ?_⟩
      · simp [Polled, Scheduler.setWorker, WorkerPhase.claimed]
      · have := ha.2.2.2
        rw [hw] at this
        simp_all [Scheduler.setWorker]
      · obtain ⟨r, hr⟩ := hgood.woken h1 h2
        exact ⟨r, (hat r).2 hr⟩

theorem Inv.pause (h : s.Inv) (hw : s.workers w = .pausing t) (hc : s.Clean (.worker w b)) : (s.stepWorker w b).Inv := by
  simp only [Clean] at hc
  rw [Scheduler.stepWorker, hw]
  simp only [hw] at hc
  have hp : s.Polled t w := by rw [Polled, hw]; rfl
  have hgood := h.good t (h.claimed t w hp)
  refine h.poller (x := .popping) hp rfl (.inl rfl) (fun u e => nomatch e) rfl rfl rfl rfl rfl rfl (fun hat ho ha => ?_)
  have hun : (s.tasks t).resolved = false := Bool.of_not_eq_true fun e => nomatch hw.symm.trans (ha.2.2.2.1 e)
  have hmk : (s.tasks t).marked = false := ha.2.2.1.elim (·.2) fun e => absurd e hc
  refine ⟨.inl ⟨fun v hv => ?_, .inl ⟨?_, .inl ?_, ?_⟩⟩, ?_, fun h1 h2 => ?_⟩
  · by_cases e : v = w
    · subst e
      simp [Polled, loop, setTask, Scheduler.setWorker, WorkerPhase.claimed] at hv
    · exact ho v e hv
  · simp [loop, setTask, hun]
  · simp [loop, setTask]
  · simp [loop, setTask, hmk]
  · simp [loop, setTask, hmk]
  · simp only [loop, setTask, Function.update_self] at h1 h2
    obtain ⟨r, hr⟩ := hgood.woken h1 h2
    exact ⟨r, (hat r).2 hr⟩

theorem Inv.finish (h : s.Inv) (hw : s.workers w = .finishing t) : (s.stepWorker w b).Inv := by
  rw [Scheduler.stepWorker, hw]
  have hp : s.Polled t w := by rw [Polled, hw]; rfl
  have hgood := h.good t (h.claimed t w hp)
  refine h.poller (x := .popping) hp rfl (.inl rfl) (fun u e => nomatch e) rfl rfl rfl rfl rfl rfl (fun hat ho ha => ?_)
  have hre : (s.tasks t).resolved = true := ha.2.2.2.2 hw
  refine ⟨.inl ⟨fun v hv => ?_, .inr ⟨?_, .inl ?_⟩⟩, ?_, fun h1 h2 => ?_⟩
  · by_cases e : v = w
    · subst e
      simp [Polled, loop, setTask, Scheduler.setWorker, WorkerPhase.claimed] at hv
    · exact ho v e hv
  · simp [loop, setTask, hre]
  · simp [loop, setTask]
  · simpa [loop, setTask] using hgood.marked
  · simp [loop, setTask, hre] at h2

/-- **Step**: a worker takes the next step of its loop. -/
theorem Inv.stepWorker (h : s.Inv) (hc : s.Clean (.worker w b)) : (s.stepWorker w b).Inv := by
  cases hw : s.workers w with
  | popping =>
    rw [Scheduler.stepWorker, hw]
    simp only
    cases hl : (s.locals w).getLast? with
    | some t =>
      refine h.take (perm_getLast hl) (by rw [hw]; rfl) (by rw [hw]; rfl) ?_ ?_ (fun u => ?_)
      all_goals split <;> simp [WorkerPhase.hand, WorkerPhase.claimed]
    | none => exact h.setWorker (by rw [hw]; rfl) (by rw [hw]; rfl) rfl (fun t e => nomatch e)
  | grabbing o n =>
    rw [Scheduler.stepWorker, hw]
    have leave : ∀ x : WorkerPhase, x.hand = o → x.claimed = none → (∀ u, x ≠ .tryingDetached u) → (s.setWorker w x).Inv :=
      fun x hx h2 hne => h.setWorker (by rw [hw]; exact hx) (by rw [hw]; rfl) h2 (fun t e => absurd e (hne t))
    simp only
    cases hg : s.global with
    | nil => exact leave _ (by cases o <;> rfl) (by cases o <;> rfl) (by cases o <;> exact fun _ e => nomatch e)
    | cons u rest =>
      simp only
      split_ifs
      · exact h.grab hg hw
      · exact leave _ (by cases o <;> rfl) (by cases o <;> rfl) (by cases o <;> exact fun _ e => nomatch e)
  | repopping =>
    rw [Scheduler.stepWorker, hw]
    simp only
    cases hl : (s.locals w).getLast? with
    | some t => exact h.take (perm_getLast hl) (by rw [hw]; rfl) (by rw [hw]; rfl) rfl rfl (fun u e => nomatch e)
    | none => exact h.setWorker (by rw [hw]; rfl) (by rw [hw]; rfl) rfl (fun t e => nomatch e)
  | stealing i => exact h.steal hw
  | trying t => exact h.tryPending hw hc
  | tryingDetached t => exact h.tryDetached hw hc
  | polling t => exact h.poll hw
  | pausing t => exact h.pause hw hc
  | finishing t => exact h.finish hw
  | parked =>
    rw [Scheduler.stepWorker, hw]
    exact h.setWorker (by rw [hw]; rfl) (by rw [hw]; rfl) rfl (fun t e => nomatch e)

theorem Inv.setTask {y : Task m} (h : s.Inv) (hlt : t < s.next) (hg : (s.setTask t y).Good t)
    (hy : ∀ v, s.workers v = .tryingDetached t → y.state ≠ .pending) : (s.setTask t y).Inv := by
  obtain ⟨he, hat⟩ := h.entries.same (z := s.setTask t y) rfl rfl (fun _ => rfl) le_rfl
  refine h.touch he (fun u _ r hr => ⟨r, (hat u r).2 hr⟩) (fun u hu => by simp [Scheduler.setTask, hu]) (fun _ _ _ _ => rfl)
    rfl rfl hlt hg (fun _ _ hv => hv) (fun v hv => ⟨?_, (h.second v t hv).2⟩)
  simpa [Scheduler.setTask] using hy v hv

/-- **Step**: the handle of a task is dropped. -/
theorem Inv.drop (h : s.Inv) (hlt : t < s.next) (hh : (s.tasks t).handle = true) (hf : (s.tasks t).freed = false) :
    (s.setTask t { s.tasks t with
      state := .detached, handle := false,
      marked := (s.tasks t).marked || decide ((s.tasks t).state = .running),
      freed := decide ((s.tasks t).state = .completed) }).Inv := by
  have hgood := h.good t hlt
  have hmk : (s.tasks t).marked = false := Bool.of_not_eq_true fun e => nomatch hh.symm.trans (hgood.marked e)
  refine h.setTask hlt ⟨?_, fun _ => by simp [Scheduler.setTask], fun h1 h2 => ?_⟩ (fun _ _ => TaskState.noConfusion)
  · rcases hgood.phase with ⟨hp, ⟨h1, h2, -⟩ | ⟨h1, h2⟩⟩ | ⟨w, h1, h2, -, h4⟩
    · refine .inl ⟨hp, .inl ⟨?_, .inr ?_, ?_⟩⟩
      · simpa [Scheduler.setTask] using h1
      · simp [Scheduler.setTask]
      · rcases h2 with h2 | h2 <;> simp [Scheduler.setTask, hmk, h2]
    · have hst : (s.tasks t).state = .completed := h2.resolve_right fun e => nomatch hf.symm.trans e.1
      refine .inl ⟨hp, .inr ⟨?_, .inr ⟨?_, ?_⟩⟩⟩
      · simpa [Scheduler.setTask] using h1
      · simp [Scheduler.setTask, hst]
      · simp [Scheduler.setTask, hmk, hst]
    · refine .inr ⟨w, h1, h2, .inr ?_, ?_⟩
      · simp [Scheduler.setTask]
      · simpa [Scheduler.setTask] using h4
  · simp only [Scheduler.setTask, Function.update_self] at h1 h2
    exact hgood.woken h1 h2

/-- **Step**: a task that is completed is deleted. -/
theorem Inv.delete (h : s.Inv) (hlt : t < s.next) (hst : (s.tasks t).state = .completed) :
    (s.setTask t { s.tasks t with handle := false, freed := true }).Inv := by
  have hgood := h.good t hlt
  refine h.setTask hlt ⟨?_, fun _ => by simp [Scheduler.setTask], fun h1 h2 => ?_⟩ (fun _ _ e => nomatch hst.symm.trans e)
  · rcases hgood.phase with ⟨hp, ⟨-, h2 | h2, -⟩ | ⟨h1, -⟩⟩ | ⟨w, -, -, ⟨h3, -⟩ | h3, -⟩
    · exact nomatch hst.symm.trans h2
    · exact nomatch hst.symm.trans h2
    · refine .inl ⟨hp, .inr ⟨?_, .inl ?_⟩⟩
      · simpa [Scheduler.setTask] using h1
      · simpa [Scheduler.setTask] using hst
    all_goals exact nomatch hst.symm.trans h3
  · simp only [Scheduler.setTask, Function.update_self] at h1 h2
    exact hgood.woken h1 h2

theorem Inv.push {q : Spot m} (h : s.Inv) (he : s'.Entries) (hm : Moved s s' t (some q)) (ht : s'.tasks = s.tasks)
    (hw : s'.workers = s.workers) (hn : s'.next = s.next) (hf : s'.foreign = s.foreign) : s'.Inv where
  entries := he
  good u hu := (h.good u (hn ▸ hu)).frame (by rw [ht]) (fun v _ => by rw [hw]) (fun _ r => hm.exists_at (.inl rfl))
  claimed u v hp := hn ▸ h.claimed u v (by rw [Polled, ← hw]; exact hp)
  second v u hv := by
    have key := h.second v u (hw ▸ hv)
    refine ⟨ht ▸ key.1, fun v' hv' => key.2 v' ?_⟩
    rw [Polled, ← hw]
    exact hv'
  owner := hf.trans h.owner

/-- **Step**: a task is woken on the thread of its worker. -/
theorem Inv.wake {o : Option (Fin m)} (h : s.Inv) (hlt : t < s.next) (hc : s.Clean (.wake o w t)) :
    Inv { (s.setTask t { s.tasks t with woken := true }).schedule w t with foreign := s.foreign || decide (o ≠ some w) } := by
  have hno : ∀ p, ¬s.At t p := fun p => by
    cases p with
    | loc v => exact hc.2.1 v
    | glob => exact hc.2.2.1
    | hand v => exact hc.2.2.2 v
  -- the task is scheduled first: an entry is what the mark asks for
  have hu : (s.schedule w t).Inv := by
    obtain ⟨he, q, hm⟩ := h.entries.schedule (w := w) hlt hno
    exact h.push he hm (schedule_tasks s w t) (schedule_workers s w t) (schedule_next s w t) (schedule_foreign s w t)
  obtain ⟨q, hq⟩ : ∃ q, (s.schedule w t).At t q := by
    obtain ⟨-, q, hm⟩ := h.entries.schedule (w := w) hlt hno
    exact ⟨q, (hm.self q).2 rfl⟩
  have hlt' : t < (s.schedule w t).next := (schedule_next s w t).symm ▸ hlt
  have hgood := hu.good t hlt'
  have hv := hu.setTask (y := { s.tasks t with woken := true }) hlt' ⟨?_, ?_, fun _ _ => ⟨q, hq⟩⟩ (fun v hv => ?_)
  · have heq : { (s.setTask t { s.tasks t with woken := true }).schedule w t with foreign := s.foreign || decide (o ≠ some w) } =
        (s.schedule w t).setTask t { s.tasks t with woken := true } := by
      have hforeign : (s.foreign || decide (o ≠ some w)) = s.foreign := by simp [hc.1]
      rw [hforeign]
      unfold Scheduler.schedule
      by_cases hl : (s.locals w).length < capacity <;> simp [hl, Scheduler.setTask, Scheduler.setLocal, Scheduler.pushGlobal]
    exact heq ▸ hv
  · have hp := hgood.phase
    simp only [Resting, Active, Scheduler.setTask, Function.update_self, schedule_tasks] at hp ⊢
    exact hp
  · have hp := hgood.marked
    simp only [Scheduler.setTask, Function.update_self, schedule_tasks] at hp ⊢
    exact hp
  · simpa using (hu.second v t hv).1

/-- **Step**: a task is spawned. -/
theorem Inv.fresh (h : s.Inv) (hq : ∀ p, ¬s.At s.next p) {q : Spot m}
    (he : s'.Entries) (hm : Moved s s' s.next (some q)) (ht : s'.tasks = Function.update s.tasks s.next {})
    (hw : s'.workers = s.workers) (hn : s'.next = s.next + 1) (hf : s'.foreign = s.foreign) : s'.Inv where
  entries := he
  good u hu := by
    by_cases e : u = s.next
    · subst e
      refine ⟨.inl ⟨fun v hv => ?_, .inl ?_⟩, ?_, fun _ _ => ⟨q, (hm.self q).2 rfl⟩⟩
      · exact absurd (h.claimed s.next v (by rw [Polled, ← hw]; exact hv)) (lt_irrefl _)
      · simp [ht]
      · simp [ht]
    · exact (h.good u (by omega)).frame (by simp [ht, e]) (fun v _ => by rw [hw]) (fun _ r => hm.exists_at (.inl rfl))
  claimed u v hp := by
    have := h.claimed u v (by rw [Polled, ← hw]; exact hp)
    omega
  second v u hv := by
    rw [hw] at hv
    have key := h.second v u hv
    have hne : u ≠ s.next := fun e => hq (.hand v) (by rw [At, hv, e]; rfl)
    refine ⟨by simpa [ht, hne] using key.1, fun v' hv' => key.2 v' ?_⟩
    rw [Polled, ← hw]
    exact hv'
  owner := hf.trans h.owner

theorem Inv.spawn {o : Option (Fin m)} (h : s.Inv) (hs : s.step (.spawn o) = some s') : s'.Inv := by
  obtain ⟨he, hat⟩ := h.entries.same (z := { s.setTask s.next {} with next := s.next + 1 }) rfl rfl (fun _ => rfl)
    (Nat.le_succ _)
  have hq : ∀ p, ¬s.At s.next p := fun p hp => lt_irrefl _ (h.entries.lt s.next p hp)
  have hq' : ∀ p, ¬At { s.setTask s.next {} with next := s.next + 1 } s.next p := fun p hp => hq p ((hat s.next p).1 hp)
  have back : ∀ {x : Scheduler m} {q}, Moved { s.setTask s.next {} with next := s.next + 1 } x s.next q → Moved s x s.next q :=
    fun hm => ⟨fun u r hu => (hm.others u r hu).trans (hat u r), hm.self⟩
  cases o with
  | some w =>
    cases hs
    obtain ⟨he', q, hm⟩ := he.schedule (w := w) (Nat.lt_succ_self _) hq'
    refine h.fresh hq he' (back hm) ?_ ?_ ?_ ?_
    all_goals simp [Scheduler.setTask]
  | none =>
    cases hs
    obtain ⟨he', hm⟩ := he.pushGlobal (Nat.lt_succ_self _) hq'
    exact h.fresh hq he' (back hm) rfl rfl rfl rfl

/-- **Step**: a clean step keeps the invariant. -/
theorem Inv.step {a : Act m} (h : s.Inv) (hc : s.Clean a) (hs : s.step a = some s') : s'.Inv := by
  cases a with
  | spawn o => exact h.spawn hs
  | wake o w t =>
    obtain ⟨hg, hs⟩ := Option.ite_none_right_eq_some.1 hs
    cases hs
    exact h.wake hg.1 hc
  | drop t =>
    obtain ⟨hg, hs⟩ := Option.ite_none_right_eq_some.1 hs
    cases hs
    exact h.drop hg.1 hg.2.1 hg.2.2
  | delete t =>
    obtain ⟨hg, hs⟩ := Option.ite_none_right_eq_some.1 hs
    cases hs
    exact h.delete hg.1 hg.2.1
  | worker w b =>
    cases hs
    exact h.stepWorker hc

theorem inv_init : ({} : Scheduler m).Inv where
  entries :=
    { once := fun t p q hp _ => absurd hp (by cases p <;> simp [At, WorkerPhase.hand])
      locals := fun _ => nodup_nil
      global := nodup_nil
      lt := fun t p hp => absurd hp (by cases p <;> simp [At, WorkerPhase.hand]) }
  good t ht := absurd ht (Nat.not_lt_zero t)
  claimed t w hp := by simp [Polled, WorkerPhase.claimed] at hp
  second w t hw := nomatch hw
  owner := rfl

theorem Inv.sound (h : s.Inv) : s.Sound where
  woken t ht := (h.good t ht).woken
  once := h.entries.once
  nodup := ⟨h.entries.locals, h.entries.global⟩
  polled t v w hv hw := by
    rcases (h.good t (h.claimed t v hv)).phase with ⟨h1, -⟩ | ⟨x, -, h2, -⟩
    · exact absurd hv (h1 v)
    · exact (h2 v hv).trans (h2 w hw).symm
  owner := h.owner
  detached t ht hm := by
    rcases (h.good t ht).phase with ⟨-, ⟨-, -, h1⟩ | ⟨-, h1 | ⟨-, h1⟩⟩⟩ | ⟨w, -, -, ⟨-, h1⟩ | h1, -⟩
    · exact nomatch hm.symm.trans h1
    · exact .inr h1
    · exact nomatch hm.symm.trans h1
    · exact nomatch hm.symm.trans h1
    · exact .inl h1

open Libx.Core (Run replay exists_run_of_replay)

/-- While wakers stay on the threads of their workers, a task is woken only when it is not queued, nobody tries to claim a
task that is polled, and no store of Pending finds a task detached, no wake-up is lost, a task has one entry and one poller,
the queues are their owners', and what is detached stays so. -/
theorem steady_of_clean (h : Run step Clean {} s) : s.Sound :=
  (h.preserves (fun _ _ _ hi hc hs => Inv.step hi hc hs) inv_init).sound

instance (s : Scheduler m) : (a : Act m) → Decidable (s.Clean a)
  | .wake θ w t => inferInstanceAs (Decidable
      (θ = some w ∧ (∀ v, ¬s.At t (.loc v)) ∧ ¬s.At t .glob ∧ ∀ v, ¬s.At t (.hand v)))
  | .worker w _ =>
    match h : s.workers w with
    | .trying t => decidable_of_iff ((∀ v, ¬s.Polled t v) ∧ (s.tasks t).freed = false) (by simp only [Clean, h])
    | .tryingDetached t => decidable_of_iff ((∀ v, ¬s.Polled t v) ∧ (s.tasks t).freed = false) (by simp only [Clean, h])
    | .pausing t => decidable_of_iff ((s.tasks t).state ≠ .detached) (by simp only [Clean, h])
    | .popping | .grabbing _ _ | .repopping | .stealing _ | .polling _ | .finishing _ | .parked =>
      isTrue (by simp only [Clean, h])
  | .spawn _ | .drop _ | .delete _ => isTrue trivial

/-- A task from outside that wakes itself in its first poll, is detached in its second, and ends. -/
theorem steady_of_clean_detached : ∃ s : Scheduler 2, Run step Clean {} s ∧ s.Sound ∧
    (s.tasks 0).state = .completed ∧ (s.tasks 0).marked = true := by
  have hreplay : replay step (fun s a => decide (s.Clean a))
      (fun s : Scheduler 2 => decide ((s.tasks 0).state = .completed ∧ (s.tasks 0).marked = true)) {}
      [.spawn none, .worker 0 true, .worker 0 true, .worker 0 true, .worker 0 true, .worker 0 true, .wake (some 0) 0 0,
        .worker 0 false, .worker 0 false, .worker 0 true, .worker 0 true, .drop 0, .worker 0 true, .worker 0 true] = true := by
    decide +kernel
  obtain ⟨s, hr, hp⟩ := exists_run_of_replay step Clean _ _ (fun _ _ => of_decide_eq_true) hreplay
  exact ⟨s, hr, steady_of_clean hr, of_decide_eq_true hp⟩

/-- A task wakes itself in its poll; another worker steals the entry, finds the task running and drops it; then the poll
ends, and the task sleeps for ever. -/
theorem not_steady_stolen : ¬∀ s : Scheduler 2, Run step (fun _ _ => True) {} s → s.Sound := by
  intro hall
  have hreplay : replay step (fun _ _ => true)
      (fun s : Scheduler 2 => decide (((s.tasks 0).woken = true ∧ (s.tasks 0).resolved = false ∧ 0 < s.next) ∧
        (∀ w, ¬s.At 0 (.loc w)) ∧ ¬s.At 0 .glob ∧ ∀ w, ¬s.At 0 (.hand w))) {}
      [.spawn (some 0), .worker 0 true, .worker 0 true, .worker 0 true, .wake (some 0) 0 0,
        .worker 1 true, .worker 1 true, .worker 1 true, .worker 1 true, .worker 1 true, .worker 1 true,
        .worker 0 false, .worker 0 false] = true := by
    decide +kernel
  obtain ⟨s, hr, hp⟩ := exists_run_of_replay step (fun _ _ => True) _ _ (fun _ _ _ => trivial) hreplay
  obtain ⟨⟨hwoken, hun, hlt⟩, hloc, hglob, hhand⟩ := of_decide_eq_true hp
  obtain ⟨p, hat⟩ := (hall s hr).woken 0 hlt hwoken hun
  cases p with
  | loc w => exact hloc w hat
  | glob => exact hglob hat
  | hand w => exact hhand w hat

end Scheduler

end Libx.Xpp
