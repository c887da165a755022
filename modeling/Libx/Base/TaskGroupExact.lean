import Libx.Base.TaskGroup

/-!
# Libx.Base.TaskGroupExact — the thread pool between the steps

The queue, the hands of the workers and the finished tasks together are the accepted tasks, each once; where a task is tells
its state, its note and whether it was called.
-/

namespace Libx.Base

open List Option

namespace TaskGroup

variable {ι : Type*} {s s' : TaskGroup ι} {t u i : ℕ} {x y : WorkerPhase} {rest : List WorkerPhase}

/-! ### The invariant -/

/-- The note and the state of a task whose struct is there. -/
def status (s : TaskGroup ι) (t : ℕ) : Option (Bool × TaskState) := (s.tasks t).map fun x => (x.note, x.state)

/-- What holds of the task in a worker's hands, by what the worker is about to do. -/
def Fits (s : TaskGroup ι) : WorkerPhase → Prop
  | .looping | .waiting => True
  | .claiming t => t ∉ s.log ∧ (s.status t = some (false, .queued) ∨ s.status t = some (false, .cancelled))
  | .running t => t ∉ s.log ∧ s.status t = some (false, .running)
  | .storing t => t ∈ s.log ∧ s.status t = some (false, .running)
  | .pushing t | .signalling t =>
    t ∈ s.log ∧ s.status t = some (false, .done) ∨ t ∉ s.log ∧ s.status t = some (false, .cancelled)
  | .counting t => t ∈ s.log ∨ t ∈ s.cancels

/-- Every accepted task is queued, in the hands of a worker, or finished, and the count is of those that are not. -/
structure Placed (s : TaskGroup ι) : Prop where
  perm : (s.queue ++ s.workers.filterMap WorkerPhase.hand ++ s.finished).Perm (List.range s.accepted)
  pending : s.pending = s.accepted - s.finished.length

/-- A task was cancelled if its state says so, and then it was not called. -/
structure Agrees (s : TaskGroup ι) (t : ℕ) : Prop where
  cancelled : t ∈ s.cancels → t ∉ s.log ∧ ∀ b k, s.status t = some (b, k) → k = .cancelled
  state : ∀ b, s.status t = some (b, .cancelled) → t ∈ s.cancels
  called : t ∈ s.log → ∀ b, s.status t ≠ some (b, .queued)

/-- What is known of the tasks. -/
structure Told (s : TaskGroup ι) : Prop where
  queue : ∀ t ∈ s.queue, s.Fits (.claiming t)
  hands : ∀ x ∈ s.workers, s.Fits x
  finished : ∀ t ∈ s.finished, s.Fits (.counting t)
  agrees : ∀ t, s.Agrees t
  lt : ∀ t, t ∈ s.log ∨ t ∈ s.cancels ∨ (s.status t).isSome → t < s.accepted
  log : s.log.Nodup

/-- The count of the waiting workers; and there are workers for what is queued. -/
structure Staffed (s : TaskGroup ι) : Prop where
  idle : s.idle = s.workers.countP (· = .waiting)
  busy : s.free < s.queue.length → s.maxThreads ≤ s.workers.length ∨ s.failed = true

structure Inv (s : TaskGroup ι) : Prop where
  placed : s.Placed
  told : s.Told
  staffed : s.Staffed
  early : s.early = false
  stolen : s.stolen = false
  raced : s.raced = false

theorem Inv.sound (h : s.Inv) : s.Sound where
  once := h.told.log
  cancelled t ht := ((h.told.agrees t).cancelled ht).1
  finished := h.told.finished
  kept t ht := by
    have := h.placed.perm.mem_iff.2 (mem_range.2 ht)
    simp only [mem_append, mem_filterMap] at this
    tauto
  pending := ⟨h.placed.pending, (nodup_append.1 (h.placed.perm.nodup_iff.2 nodup_range)).2.1⟩
  early := h.early
  stolen := h.stolen
  raced := h.raced
  busy := h.staffed.busy

theorem inv_init (n k : ℕ) : ({ maxThreads := n, qcap := k } : TaskGroup ι).Inv where
  placed := ⟨.refl _, rfl⟩
  told := ⟨fun t ht => absurd ht not_mem_nil, fun x hx => absurd hx not_mem_nil,
    fun t ht => absurd ht not_mem_nil,
    fun t => ⟨fun ht => absurd ht not_mem_nil, (fun b h => nomatch h), fun ht => absurd ht not_mem_nil⟩,
    fun t ht => by simp [status] at ht, nodup_nil⟩
  staffed := ⟨rfl, fun h => absurd h (Nat.not_lt_zero _)⟩
  early := rfl
  stolen := rfl
  raced := rfl

/-! ### Frames -/

theorem Fits.frame (h : s.Fits x) (hs : ∀ t, x.uses = some t → s'.status t = s.status t)
    (hl : ∀ t, x.hand = some t → (t ∈ s'.log ↔ t ∈ s.log)) (hc : ∀ t ∈ s.cancels, t ∈ s'.cancels) : s'.Fits x := by
  cases x with
  | looping | waiting => trivial
  | claiming t | running t | storing t | pushing t | signalling t => rwa [Fits, hs t rfl, hl t rfl]
  | counting t => exact h.imp (hl t rfl).2 (hc t)

theorem WorkerPhase.hand_of_uses (h : x.uses = some t) : x.hand = some t := by
  cases x <;> first | exact h | cases h

theorem Told.same (h : s.Told) (hq : s'.queue = s.queue) (hw : s'.workers = s.workers) (hf : s'.finished = s.finished)
    (hs : ∀ t, s'.status t = s.status t) (hl : s'.log = s.log) (hc : s'.cancels = s.cancels)
    (ha : s'.accepted = s.accepted) : s'.Told := by
  have fits : ∀ x, s.Fits x → s'.Fits x := fun x hx =>
    hx.frame (fun t _ => hs t) (fun t _ => by rw [hl]) (fun t ht => hc ▸ ht)
  refine ⟨fun t ht => fits _ (h.queue t (hq ▸ ht)), fun x hx => fits x (h.hands x (hw ▸ hx)),
    fun t ht => fits _ (h.finished t (hf ▸ ht)), fun t => ⟨fun ht => ?_, fun b hb => ?_, fun ht b => ?_⟩,
    fun t ht => ?_, ?_⟩
  · rw [hl, hs]
    exact (h.agrees t).cancelled (hc ▸ ht)
  · rw [hc]
    exact (h.agrees t).state b (hs t ▸ hb)
  · rw [hs]
    exact (h.agrees t).called (hl ▸ ht) b
  · rw [ha]
    rw [hl, hc, hs] at ht
    exact h.lt t ht
  · rw [hl]
    exact h.log

theorem Inv.same (h : s.Inv) (hq : s'.queue = s.queue) (hw : s'.workers = s.workers) (hf : s'.finished = s.finished)
    (hs : ∀ t, s'.status t = s.status t) (hl : s'.log = s.log) (hc : s'.cancels = s.cancels)
    (ha : s'.accepted = s.accepted) (hp : s'.pending = s.pending) (hi : s'.idle = s.idle)
    (hm : s'.maxThreads = s.maxThreads ∧ s'.failed = s.failed)
    (he : s'.early = false) (hst : s'.stolen = false) (hr : s'.raced = false) : s'.Inv where
  placed := ⟨by rw [hq, hw, hf, ha]; exact h.placed.perm, by rw [hp, ha, hf]; exact h.placed.pending⟩
  told := h.told.same hq hw hf hs hl hc ha
  staffed := ⟨by rw [hi, hw]; exact h.staffed.idle, by rw [free, hw, hq, hm.1, hm.2]; exact h.staffed.busy⟩
  early := he
  stolen := hst
  raced := hr

/-! ### Places -/

theorem perm_of_getElem? {l : List WorkerPhase} (h : l[i]? = some x) (y : WorkerPhase) :
    l.Perm (x :: l.eraseIdx i) ∧ (l.set i y).Perm (y :: l.eraseIdx i) := by
  obtain ⟨hi, rfl⟩ := List.getElem?_eq_some_iff.1 h
  exact ⟨(getElem_cons_eraseIdx_perm hi).symm, set_perm_cons_eraseIdx hi y⟩

theorem Placed.nodup (h : s.Placed) : (s.queue ++ s.workers.filterMap WorkerPhase.hand ++ s.finished).Nodup :=
  h.perm.nodup_iff.2 nodup_range

theorem Placed.alone (h : s.Placed) (hw : s.workers.Perm (x :: rest)) (hx : x.hand = some t) :
    t < s.accepted ∧ t ∉ s.queue ∧ t ∉ s.finished ∧ ∀ y ∈ rest, y.hand ≠ some t := by
  have hperm : (s.workers.filterMap WorkerPhase.hand).Perm (t :: rest.filterMap WorkerPhase.hand) := by
    have := hw.filterMap WorkerPhase.hand
    rwa [filterMap_cons_some hx] at this
  have hmem : t ∈ s.workers.filterMap WorkerPhase.hand := hperm.mem_iff.2 mem_cons_self
  have hnd := h.nodup
  obtain ⟨h1, -, h3⟩ := nodup_append.1 hnd
  obtain ⟨-, h4, h5⟩ := nodup_append.1 h1
  refine ⟨mem_range.1 (h.perm.mem_iff.1 (by simp [hmem])), fun hq => h5 t hq t hmem rfl,
    fun hf => h3 t (mem_append_right _ hmem) t hf rfl, fun y hy he => ?_⟩
  exact (nodup_cons.1 (hperm.nodup_iff.1 h4)).1 (mem_filterMap.2 ⟨y, hy, he⟩)

theorem filterMap_hand_cons (x : WorkerPhase) (l : List WorkerPhase) :
    (x :: l).filterMap WorkerPhase.hand = x.hand.toList ++ l.filterMap WorkerPhase.hand := by
  cases h : x.hand <;> simp [h]

theorem Placed.work (h : s.Placed) (hw : s.workers.Perm (x :: rest)) (hw' : s'.workers.Perm (y :: rest))
    (hp : (s'.queue ++ y.hand.toList ++ s'.finished).Perm (s.queue ++ x.hand.toList ++ s.finished))
    (ha : s'.accepted = s.accepted) (hn : s'.pending = s'.accepted - s'.finished.length) : s'.Placed where
  perm := by
    rw [ha]
    refine List.Perm.trans ?_ h.perm
    have h1 := (hw.filterMap WorkerPhase.hand)
    have h2 := (hw'.filterMap WorkerPhase.hand)
    rw [filterMap_hand_cons] at h1 h2
    rw [perm_iff_count] at hp h1 h2 ⊢
    intro a
    have h3 := hp a
    simp only [count_append, h1 a, h2 a] at h3 ⊢
    omega
  pending := hn

theorem Told.work (h : s.Told) (hpl : s.Placed) (hw : s.workers.Perm (x :: rest)) (hw' : s'.workers.Perm (y :: rest))
    (hq : ∀ t ∈ s'.queue, t ∈ s.queue) (hf : ∀ t ∈ s'.finished, t ∈ s.finished ∨ s'.Fits (.counting t))
    (hs : ∀ t, x.hand ≠ some t → s'.status t = s.status t) (hl : ∀ t, x.hand ≠ some t → (t ∈ s'.log ↔ t ∈ s.log))
    (hc : s'.cancels = s.cancels) (ha : s'.accepted = s.accepted) (hn : s'.log.Nodup)
    (hy : s'.Fits y) (hself : ∀ t, x.hand = some t → s'.Agrees t) : s'.Told := by
  have hcc : ∀ t ∈ s.cancels, t ∈ s'.cancels := fun t ht => hc ▸ ht
  have other : ∀ z : WorkerPhase, (∀ t, z.hand = some t → x.hand ≠ some t) → s.Fits z → s'.Fits z := fun z hz hfit =>
    hfit.frame (fun t ht => hs t (hz t (WorkerPhase.hand_of_uses ht))) (fun t ht => hl t (hz t ht)) hcc
  refine ⟨fun t ht => ?_, fun z hz => ?_, fun t ht => ?_, fun t => ?_, fun t ht => ?_, hn⟩
  · refine other _ (fun u hu he => ?_) (h.queue t (hq t ht))
    cases hu
    exact (hpl.alone hw he).2.1 (hq t ht)
  · rcases mem_cons.1 (hw'.mem_iff.1 hz) with rfl | hz
    · exact hy
    · exact other z (fun u hu he => (hpl.alone hw he).2.2.2 z hz hu) (h.hands z (hw.mem_iff.2 (mem_cons_of_mem _ hz)))
  · rcases hf t ht with ht | ht
    · refine other _ (fun u hu he => ?_) (h.finished t ht)
      cases hu
      exact (hpl.alone hw he).2.2.1 ht
    · exact ht
  · by_cases he : x.hand = some t
    · exact hself t he
    · refine ⟨fun ht => ?_, fun b hb => ?_, fun ht b => ?_⟩
      · rw [hs t he, hl t he]
        exact (h.agrees t).cancelled (hc ▸ ht)
      · rw [hc]
        exact (h.agrees t).state b (hs t he ▸ hb)
      · rw [hs t he]
        exact (h.agrees t).called ((hl t he).1 ht) b
  · rw [ha]
    by_cases he : x.hand = some t
    · exact (hpl.alone hw he).1
    · rw [hs t he, hl t he, hc] at ht
      exact h.lt t ht

theorem Staffed.work (h : s.Staffed) (hw : s.workers.Perm (x :: rest)) (hw' : s'.workers.Perm (y :: rest))
    (hi : s'.idle + (if x = .waiting then 1 else 0) = s.idle + if y = .waiting then 1 else 0)
    (hq : s'.queue.length + (if x.hand = none then 1 else 0) ≤ s.queue.length + if y.hand = none then 1 else 0)
    (hm : s'.maxThreads = s.maxThreads ∧ s'.failed = s.failed) : s'.Staffed := by
  have hlen : s'.workers.length = s.workers.length := by rw [hw'.length_eq, hw.length_eq]; rfl
  refine ⟨?_, fun hb => ?_⟩
  · have h1 := h.idle
    rw [hw.countP_eq, countP_cons] at h1
    rw [hw'.countP_eq, countP_cons]
    simp only [decide_eq_true_eq] at h1 ⊢
    omega
  · have h1 : s.free < s.queue.length := by
      rw [free, hw'.countP_eq, countP_cons] at hb
      rw [free, hw.countP_eq, countP_cons]
      simp only [decide_eq_true_eq] at hb ⊢
      omega
    rw [hlen, hm.1, hm.2]
    exact h.busy h1

/-! ### Workers -/

theorem status_setTask_self {f : Task ι → Task ι} {b b' : Bool} {k k' : TaskState} (hst : s.status t = some (b, k))
    (hf : ∀ x : Task ι, x.note = b → x.state = k → (f x).note = b' ∧ (f x).state = k') :
    (s.setTask t f).status t = some (b', k') := by
  simp only [status, map_eq_some_iff, Prod.mk.injEq] at hst
  obtain ⟨x, hx, hb, hk⟩ := hst
  obtain ⟨h1, h2⟩ := hf x hb hk
  simp [status, setTask, hx, h1, h2]

theorem status_setTask_of_ne {f : Task ι → Task ι} (hu : u ≠ t) : (s.setTask t f).status u = s.status u := by
  simp [status, setTask, hu]

@[simp] theorem hand_looping : WorkerPhase.looping.hand = none := rfl

@[simp] theorem hand_waiting : WorkerPhase.waiting.hand = none := rfl

@[simp] theorem hand_claiming (t : ℕ) : (WorkerPhase.claiming t).hand = some t := rfl

@[simp] theorem hand_counting (t : ℕ) : (WorkerPhase.counting t).hand = some t := rfl

theorem Inv.dequeue {q : List ℕ} {n : ℕ} (h : s.Inv) (hi : s.workers[i]? = some x) (hx : x.hand = none)
    (hq : s.queue = t :: q) (hn : n + (if x = .waiting then 1 else 0) = s.idle) :
    ({ s with queue := q, idle := n }.setWorker i (.claiming t)).Inv := by
  obtain ⟨hw, hw'⟩ := perm_of_getElem? hi (.claiming t)
  refine ⟨h.placed.work hw hw' ?_ rfl h.placed.pending, ?_, h.staffed.work hw hw' ?_ ?_ ⟨rfl, rfl⟩, h.early, h.stolen, h.raced⟩
  · simp [setWorker, hx, hq]
  · refine h.told.work h.placed hw hw' (fun u hu => ?_) (fun u hu => .inl hu) (fun _ _ => rfl) (fun _ _ => .rfl) rfl rfl
      h.told.log (h.told.queue t (hq ▸ mem_cons_self)) (fun u hu => nomatch hx.symm.trans hu)
    rw [hq]
    exact mem_cons_of_mem _ hu
  · simpa [setWorker] using hn
  · simp [setWorker, hx, hq]

theorem Inv.goOn (h : s.Inv) (hi : s.workers[i]? = some x) (hx : x.hand = some t) (hy : y.hand = some t)
    (hw' : s'.workers = s.workers.set i y) (hq : s'.queue = s.queue) (hf : s'.finished = s.finished)
    (hs : ∀ u, u ≠ t → s'.status u = s.status u) (hl : ∀ u, u ≠ t → (u ∈ s'.log ↔ u ∈ s.log)) (hc : s'.cancels = s.cancels)
    (ha : s'.accepted = s.accepted) (hp : s'.pending = s.pending) (hid : s'.idle = s.idle)
    (hm : s'.maxThreads = s.maxThreads ∧ s'.failed = s.failed) (hn : s'.log.Nodup) (hfit : s'.Fits y) (hag : s'.Agrees t)
    (hfl : s'.early = s.early ∧ s'.stolen = s.stolen ∧ s'.raced = s.raced) : s'.Inv := by
  obtain ⟨hw, hwy⟩ := perm_of_getElem? hi y
  rw [← hw'] at hwy
  have hxw : x ≠ .waiting := fun e => by rw [e] at hx; cases hx
  have hyw : y ≠ .waiting := fun e => by rw [e] at hy; cases hy
  refine ⟨h.placed.work hw hwy ?_ ha ?_, ?_, h.staffed.work hw hwy ?_ ?_ hm, hfl.1.trans h.early, hfl.2.1.trans h.stolen,
    hfl.2.2.trans h.raced⟩
  · rw [hq, hf, hx, hy]
  · rw [hp, ha, hf]
    exact h.placed.pending
  · refine h.told.work h.placed hw hwy (fun u hu => hq ▸ hu) (fun u hu => .inl (hf ▸ hu))
      (fun u hu => hs u fun e => hu (e ▸ hx)) (fun u hu => hl u fun e => hu (e ▸ hx)) hc ha hn hfit (fun u hu => ?_)
    rw [hx] at hu
    cases hu
    exact hag
  · rw [if_neg hxw, if_neg hyw, hid]
  · simp [hx, hy, hq]

theorem Inv.claimTask (h : s.Inv) (hi : s.workers[i]? = some (.claiming t)) (hs : s.stepWorker i (.claiming t) = some s') :
    s'.Inv := by
  have hfit := h.told.hands _ (mem_of_getElem? hi)
  obtain ⟨hlog, hst⟩ := hfit
  have hag := h.told.agrees t
  by_cases hk : s.status t = some (false, .queued)
  · have hk' : (s.tasks t).map Task.state = some .queued := by
      simp only [status, map_eq_some_iff, Prod.mk.injEq] at hk ⊢
      obtain ⟨x, hx, -, hx'⟩ := hk
      exact ⟨x, hx, hx'⟩
    have hst' : (s.setTask t fun x => { x with state := .running }).status t = some (false, .running) :=
      status_setTask_self hk fun x hx _ => ⟨hx, rfl⟩
    simp only [TaskGroup.stepWorker, hk', if_true, some.injEq] at hs
    subst hs
    refine h.goOn hi rfl rfl rfl rfl rfl (fun u hu => status_setTask_of_ne hu) (fun _ _ => .rfl) rfl rfl rfl rfl ⟨rfl, rfl⟩
      h.told.log ⟨hlog, hst'⟩ ⟨fun hc => ?_, fun b hb => ?_, fun _ b hb => ?_⟩ ⟨rfl, rfl, rfl⟩
    · exact nomatch (hag.cancelled hc).2 _ _ hk
    all_goals exact nomatch hst'.symm.trans hb
  · have hk2 := hst.resolve_left hk
    have hk' : (s.tasks t).map Task.state ≠ some .queued := by
      simp only [status, map_eq_some_iff, Prod.mk.injEq] at hk2
      obtain ⟨x, hx, -, hx'⟩ := hk2
      simp [hx, hx']
    simp only [TaskGroup.stepWorker, if_neg hk', some.injEq] at hs
    subst hs
    exact h.goOn hi rfl rfl rfl rfl rfl (fun _ _ => rfl) (fun _ _ => .rfl) rfl rfl rfl rfl ⟨rfl, rfl⟩ h.told.log
      (.inr ⟨hlog, hk2⟩) ⟨hag.cancelled, hag.state, hag.called⟩ ⟨rfl, rfl, rfl⟩

theorem Inv.storeDone (h : s.Inv) (hi : s.workers[i]? = some (.storing t)) (hs : s.stepWorker i (.storing t) = some s') :
    s'.Inv := by
  have hfit := h.told.hands _ (mem_of_getElem? hi)
  obtain ⟨hlog, hst⟩ := hfit
  have hag := h.told.agrees t
  have hst' : (s.setTask t fun x => { x with state := .done }).status t = some (false, .done) :=
    status_setTask_self hst fun x hx _ => ⟨hx, rfl⟩
  cases hs
  refine h.goOn hi rfl rfl rfl rfl rfl (fun u hu => status_setTask_of_ne hu) (fun _ _ => .rfl) rfl rfl rfl rfl ⟨rfl, rfl⟩
    h.told.log (.inl ⟨hlog, hst'⟩) ⟨fun hc => ?_, fun b hb => ?_, fun _ b hb => ?_⟩ ⟨rfl, rfl, rfl⟩
  · exact absurd hlog (hag.cancelled hc).1
  all_goals exact nomatch hst'.symm.trans hb

theorem Inv.signalNote (h : s.Inv) (hi : s.workers[i]? = some (.signalling t)) (hs : s.stepWorker i (.signalling t) = some s') :
    s'.Inv := by
  have hfit := h.told.hands _ (mem_of_getElem? hi)
  have hag := h.told.agrees t
  cases hs
  rcases hfit with ⟨hlog, hst⟩ | ⟨hlog, hst⟩
  · have hst' : (s.setTask t fun x => { x with note := true }).status t = some (true, .done) :=
      status_setTask_self hst fun x _ hx => ⟨rfl, hx⟩
    refine h.goOn hi rfl rfl rfl rfl rfl (fun u hu => status_setTask_of_ne hu) (fun _ _ => .rfl) rfl rfl rfl rfl ⟨rfl, rfl⟩
      h.told.log (.inl hlog) ⟨fun hc => ?_, fun b hb => ?_, fun _ b hb => ?_⟩ ⟨rfl, rfl, rfl⟩
    · exact absurd hlog (hag.cancelled hc).1
    all_goals exact nomatch hst'.symm.trans hb
  · have hst' : (s.setTask t fun x => { x with note := true }).status t = some (true, .cancelled) :=
      status_setTask_self hst fun x _ hx => ⟨rfl, hx⟩
    refine h.goOn hi rfl rfl rfl rfl rfl (fun u hu => status_setTask_of_ne hu) (fun _ _ => .rfl) rfl rfl rfl rfl ⟨rfl, rfl⟩
      h.told.log (.inr (hag.state _ hst))
      ⟨fun hc => ⟨hlog, fun b k hb => ?_⟩, fun b _ => hag.state _ hst, fun hl => absurd hl hlog⟩ ⟨rfl, rfl, rfl⟩
    cases hst'.symm.trans hb
    rfl

theorem Inv.countFinished (h : s.Inv) (hi : s.workers[i]? = some (.counting t)) (hs : s.stepWorker i (.counting t) = some s') :
    s'.Inv := by
  have hfit := h.told.hands _ (mem_of_getElem? hi)
  cases hs
  obtain ⟨hw, hw'⟩ := perm_of_getElem? hi .looping
  refine ⟨h.placed.work hw hw' ?_ rfl ?_, ?_, h.staffed.work hw hw' ?_ ?_ ⟨rfl, rfl⟩, h.early, h.stolen, h.raced⟩
  · simpa [setWorker] using (perm_append_singleton t s.finished).append_left s.queue
  · have := h.placed.pending
    simp only [setWorker, length_append, length_singleton]
    omega
  · refine h.told.work h.placed hw hw' (fun u hu => hu) (fun u hu => ?_) (fun _ _ => rfl) (fun _ _ => .rfl) rfl rfl
      h.told.log trivial (fun u _ =>
        have hag := h.told.agrees u
        ⟨hag.cancelled, hag.state, hag.called⟩)
    rcases mem_append.1 hu with hu | hu
    · exact .inl hu
    · exact .inr (mem_singleton.1 hu ▸ hfit)
  · simp [setWorker]
  · simp [setWorker]

/-- **Step**: a worker takes its next step. -/
theorem Inv.stepWorker (h : s.Inv) (hi : s.workers[i]? = some x) (hs : s.stepWorker i x = some s') : s'.Inv := by
  have hfit := h.told.hands _ (mem_of_getElem? hi)
  cases x with
  | looping =>
    cases hq : s.queue with
    | cons t q =>
      simp only [TaskGroup.stepWorker, hq, some.injEq] at hs
      exact hs ▸ h.dequeue (n := s.idle) hi rfl hq rfl
    | nil =>
      simp only [TaskGroup.stepWorker, hq, some.injEq] at hs
      subst hs
      obtain ⟨hw, hw'⟩ := perm_of_getElem? hi .waiting
      refine ⟨h.placed.work hw hw' ?_ rfl h.placed.pending, ?_, h.staffed.work hw hw' ?_ ?_ ⟨rfl, rfl⟩, h.early, h.stolen, h.raced⟩
      · simp [setWorker, hq]
      · exact h.told.work h.placed hw hw' (fun u hu => hq ▸ hu) (fun u hu => .inl hu) (fun _ _ => rfl) (fun _ _ => .rfl) rfl rfl
          h.told.log trivial (fun u hu => nomatch hu)
      · simp [setWorker]
      · simp [setWorker, hq]
  | waiting =>
    cases hq : s.queue with
    | cons t q =>
      simp only [TaskGroup.stepWorker, hq, some.injEq] at hs
      have hpos : 0 < s.idle := by
        rw [h.staffed.idle]
        exact countP_pos_iff.2 ⟨.waiting, mem_of_getElem? hi, by simp⟩
      exact hs ▸ h.dequeue (n := s.idle - 1) hi rfl hq (by rw [if_pos rfl]; omega)
    | nil => simp [TaskGroup.stepWorker, hq] at hs
  | claiming t => exact h.claimTask hi hs
  | running t =>
    obtain ⟨hlog, hst⟩ := hfit
    have hag := h.told.agrees t
    cases hs
    refine h.goOn hi rfl rfl rfl rfl rfl (fun _ _ => rfl) (fun u hu => ?_) rfl rfl rfl rfl ⟨rfl, rfl⟩ ?_ ⟨?_, hst⟩
      ⟨fun hc => ?_, fun b hb => ?_, fun _ b hb => ?_⟩ ⟨rfl, rfl, rfl⟩
    · simp [setWorker, hu]
    · exact nodup_append.2 ⟨h.told.log, nodup_singleton t, fun a ha b hb e => hlog (mem_singleton.1 hb ▸ e ▸ ha)⟩
    · exact mem_append_right _ (mem_singleton_self t)
    · exact nomatch (hag.cancelled hc).2 _ _ hst
    · exact hag.state b hb
    · exact nomatch hst.symm.trans hb
  | storing t => exact h.storeDone hi hs
  | pushing t =>
    have hag := h.told.agrees t
    cases hs
    exact h.goOn hi rfl rfl rfl rfl rfl (fun _ _ => rfl) (fun _ _ => .rfl) rfl rfl rfl rfl ⟨rfl, rfl⟩ h.told.log hfit
      ⟨hag.cancelled, hag.state, hag.called⟩ ⟨rfl, rfl, rfl⟩
  | signalling t => exact h.signalNote hi hs
  | counting t => exact h.countFinished hi hs

/-! ### Callers -/

theorem Inv.enqueue {o : ι} {l : List WorkerPhase} {f : Bool} (h : s.Inv) (hl : l = [] ∨ l = [.looping])
    (hb : s.free + l.length < s.queue.length + 1 → s.maxThreads ≤ s.workers.length + l.length ∨ f = true) :
    Inv { s with
      queue := s.queue ++ [s.accepted]
      tasks := Function.update s.tasks s.accepted (some { owner := o })
      accepted := s.accepted + 1
      pending := s.pending + 1
      workers := s.workers ++ l
      failed := f } := by
  have hhands : (s.workers ++ l).filterMap WorkerPhase.hand = s.workers.filterMap WorkerPhase.hand := by
    rcases hl with rfl | rfl <;> simp
  have hwait : l.countP (· = .waiting) = 0 := by rcases hl with rfl | rfl <;> rfl
  have hfree : l.countP (fun x => x.hand = none) = l.length := by rcases hl with rfl | rfl <;> rfl
  have hold : ∀ t, t ∈ s.log ∨ t ∈ s.cancels ∨ (s.status t).isSome → t ≠ s.accepted := fun t ht e =>
    absurd (h.told.lt t ht) (e ▸ Nat.lt_irrefl _)
  have hst : ∀ t, t ≠ s.accepted →
      ({ s with tasks := Function.update s.tasks s.accepted (some { owner := o }) } : TaskGroup ι).status t = s.status t :=
    fun t ht => by simp [status, ht]
  have hnew : ({ s with tasks := Function.update s.tasks s.accepted (some { owner := o }) } : TaskGroup ι).status s.accepted =
      some (false, .queued) := by simp [status]
  have hplace : ∀ t, t ∈ s.queue ∨ t ∈ s.finished ∨ (∃ x ∈ s.workers, x.hand = some t) → t ≠ s.accepted := fun t ht e => by
    have hmem : t ∈ List.range s.accepted := by
      refine h.placed.perm.mem_iff.1 ?_
      rcases ht with ht | ht | ht
      · exact mem_append_left _ (mem_append_left _ ht)
      · exact mem_append_right _ ht
      · exact mem_append_left _ (mem_append_right _ (mem_filterMap.2 ht))
    exact absurd (mem_range.1 hmem) (e ▸ Nat.lt_irrefl _)
  refine ⟨⟨?_, ?_⟩, ⟨fun t ht => ?_, fun x hx => ?_, fun t ht => ?_, fun t => ?_, fun t ht => ?_, h.told.log⟩, ⟨?_, ?_⟩, h.early,
    h.stolen, h.raced⟩
  · dsimp only
    rw [hhands, range_succ, append_assoc, append_assoc]
    refine (perm_append_comm_assoc _ _ _).trans ?_
    refine perm_append_comm.trans ?_
    rw [← append_assoc]
    exact h.placed.perm.append_right _
  · have := h.placed.pending
    dsimp only
    push_cast
    omega
  · rcases mem_append.1 ht with ht | ht
    · refine (h.told.queue t ht).frame (fun u hu => ?_) (fun _ _ => .rfl) (fun _ hu => hu)
      cases hu
      exact hst t (hplace t (.inl ht))
    · rw [mem_singleton.1 ht]
      exact ⟨fun hlog => hold _ (.inl hlog) rfl, .inl hnew⟩
  · rcases mem_append.1 hx with hx | hx
    · exact (h.told.hands x hx).frame
        (fun u hu => hst u (hplace u (.inr (.inr ⟨x, hx, WorkerPhase.hand_of_uses hu⟩)))) (fun _ _ => .rfl) (fun _ hu => hu)
    · rcases hl with rfl | rfl
      · exact absurd hx not_mem_nil
      · rw [mem_singleton.1 hx]
        trivial
  · exact (h.told.finished t ht).frame (fun u hu => nomatch hu) (fun _ _ => .rfl) (fun _ hu => hu)
  · have hag := h.told.agrees t
    by_cases e : t = s.accepted
    · subst e
      refine ⟨fun hc => absurd rfl (hold _ (.inr (.inl hc))), fun b hb => ?_, fun hl => absurd rfl (hold _ (.inl hl))⟩
      exact nomatch hnew.symm.trans hb
    · refine ⟨fun hc => ⟨(hag.cancelled hc).1, fun b k hb => ?_⟩, fun b hb => ?_, fun hl b hb => ?_⟩
      · exact (hag.cancelled hc).2 b k ((hst t e).symm.trans hb)
      · exact hag.state b ((hst t e).symm.trans hb)
      · exact hag.called hl b ((hst t e).symm.trans hb)
  · by_cases e : t = s.accepted
    · rw [e]
      exact Nat.lt_succ_self _
    · refine Nat.lt_succ_of_lt (h.told.lt t (ht.imp_right (Or.imp_right fun ht => ?_)))
      exact (hst t e) ▸ ht
  · dsimp only
    rw [countP_append, hwait]
    exact h.staffed.idle
  · dsimp only [free]
    rw [countP_append, hfree, length_append, length_append]
    exact hb

/-- **Step**: a task is submitted. -/
theorem Inv.taskSubmit {θ : ι} {memOk createOk : Bool} (h : s.Inv)
    (hc : s.Accepts memOk → 0 < s.idle → s.queue.length < s.free ∨ s.maxThreads ≤ s.workers.length ∨ s.failed = true) :
    (s.taskSubmit θ memOk createOk).Inv := by
  have hb := h.staffed.busy
  unfold TaskGroup.taskSubmit
  split_ifs with ha hid
  · have key := h.enqueue (o := θ) (l := []) (f := s.failed) (.inl rfl) (fun hlt => ?_)
    · simpa using key
    · have := hc ha hid
      simp only [length_nil, Nat.add_zero] at hlt ⊢
      rcases this with h1 | h1
      · omega
      · exact h1
  · dsimp only [spawnOneWorker]
    by_cases hm : s.maxThreads ≤ s.workers.length
    · rw [if_pos hm]
      have key := h.enqueue (o := θ) (l := []) (f := s.failed) (.inl rfl) (fun _ => .inl hm)
      simpa using key
    · rw [if_neg hm]
      cases createOk with
      | true =>
        refine h.enqueue (o := θ) (l := [.looping]) (f := s.failed) (.inr rfl) (fun hlt => ?_)
        simp only [length_singleton] at hlt ⊢
        rcases hb (by omega) with h1 | h1
        · exact .inl (Nat.le_succ_of_le h1)
        · exact .inr h1
      | false =>
        have key := h.enqueue (o := θ) (l := []) (f := true) (.inl rfl) (fun _ => .inr rfl)
        simpa using key
  · exact h

/-- **Step**: a task that is queued is cancelled. -/
theorem Inv.cancel (h : s.Inv) (hk : (s.tasks t).map Task.state = some .queued) :
    Inv { s.setTask t fun x => { x with state := .cancelled } with cancels := s.cancels ++ [t] } := by
  obtain ⟨b, hst⟩ : ∃ b, s.status t = some (b, .queued) := by
    obtain ⟨x, hx, hx'⟩ := map_eq_some_iff.1 hk
    exact ⟨x.note, by simp [status, hx, hx']⟩
  have hst' : (s.setTask t fun x => { x with state := .cancelled }).status t = some (b, .cancelled) :=
    status_setTask_self hst fun x hx _ => ⟨hx, rfl⟩
  have hne : ∀ u, u ≠ t → (s.setTask t fun x => { x with state := .cancelled }).status u = s.status u :=
    fun u hu => status_setTask_of_ne hu
  have hag := h.told.agrees t
  have hlog : t ∉ s.log := fun hl => hag.called hl b hst
  have hmem : ∀ u ∈ s.cancels, u ∈ s.cancels ++ [t] := fun u hu => mem_append_left _ hu
  -- only a task that is still to be claimed can be cancelled
  have fits : ∀ x, s.Fits x →
      Fits { s.setTask t fun x => { x with state := .cancelled } with cancels := s.cancels ++ [t] } x := fun x hx => by
    by_cases e : x.uses = some t
    · cases x with
      | looping | waiting | counting u => cases e
      | claiming u =>
        cases e
        obtain ⟨-, h1 | h1⟩ := hx
        · cases hst.symm.trans h1
          exact ⟨hlog, .inr hst'⟩
        · cases hst.symm.trans h1
      | running u | storing u =>
        cases e
        cases hst.symm.trans hx.2
      | pushing u | signalling u =>
        cases e
        rcases hx with ⟨-, h1⟩ | ⟨-, h1⟩ <;> cases hst.symm.trans h1
    · exact hx.frame (fun u hu => hne u fun he => e (he ▸ hu)) (fun _ _ => .rfl) hmem
  refine ⟨⟨h.placed.perm, h.placed.pending⟩, ⟨fun u hu => fits _ (h.told.queue u hu), fun x hx => fits _ (h.told.hands x hx),
    fun u hu => fits _ (h.told.finished u hu), fun u => ?_, fun u hu => ?_, h.told.log⟩, ⟨h.staffed.idle, h.staffed.busy⟩,
    h.early, h.stolen, h.raced⟩
  · by_cases e : u = t
    · subst e
      refine ⟨fun _ => ⟨hlog, fun b' k hb => ?_⟩, fun _ _ => mem_append_right _ (mem_singleton_self u),
        fun hl => absurd hl hlog⟩
      cases hst'.symm.trans hb
      rfl
    · have hau := h.told.agrees u
      refine ⟨fun hc => ?_, fun b' hb => hmem u (hau.state b' ((hne u e).symm.trans hb)),
        fun hl b' hb => hau.called hl b' ((hne u e).symm.trans hb)⟩
      have hc' := hau.cancelled ((mem_append.1 hc).resolve_right fun he => e (mem_singleton.1 he))
      exact ⟨hc'.1, fun b' k hb => hc'.2 b' k ((hne u e).symm.trans hb)⟩
  · by_cases e : u = t
    · rw [e]
      exact h.told.lt t (.inr (.inr (by rw [hst]; rfl)))
    · refine h.told.lt u (hu.imp_right (Or.imp (fun hc => ?_) fun hc => ?_))
      · exact (mem_append.1 hc).resolve_right fun he => e (mem_singleton.1 he)
      · exact (hne u e) ▸ hc

theorem Inv.handles {f : ι → Bool → Bool} {g : ℕ → Bool} {l : List ι} (h : s.Inv) :
    Inv { s with
      tasks := fun t => (s.tasks t).map fun x => if g t then { x with held := f x.owner x.held } else x
      waiters := l } := by
  refine h.same rfl rfl rfl (fun t => ?_) rfl rfl rfl rfl rfl ⟨rfl, rfl⟩ h.early h.stolen h.raced
  cases hx : s.tasks t with
  | none => simp [status, hx]
  | some x => by_cases hg : g t <;> simp [status, hx, hg]

theorem setTask_held (s : TaskGroup ι) (t : ℕ) : (s.setTask t fun x => { x with held := false }) =
    { s with tasks := fun u => (s.tasks u).map fun x => if decide (u = t) then { x with held := false } else x } := by
  unfold setTask
  congr 1
  funext u
  by_cases e : u = t
  · subst e
    simp
  · cases hx : s.tasks u <;> simp [e, hx]

theorem Fits.uses (h : s.Fits x) (hx : x.uses = some t) : ∃ k, s.status t = some (false, k) := by
  cases x with
  | looping | waiting | counting u => cases hx
  | claiming u =>
    cases hx
    exact h.2.elim (fun h => ⟨_, h⟩) fun h => ⟨_, h⟩
  | running u | storing u =>
    cases hx
    exact ⟨_, h.2⟩
  | pushing u | signalling u =>
    cases hx
    exact h.elim (fun h => ⟨_, h.2⟩) fun h => ⟨_, h.2⟩

variable [DecidableEq ι]

/-- **Step**: a thread pops the done list. -/
theorem Inv.drainOne {θ : ι} {r : Bool} (h : s.Inv) (hr : r = false)
    (hc : ∀ t ∈ s.doneList.head?, (s.tasks t).map Task.note = some true ∧ ¬s.Held t) :
    Inv { s.drainOne θ with raced := s.raced || r } := by
  have hraced : (s.raced || r) = false := by rw [h.raced, hr]; rfl
  unfold TaskGroup.drainOne
  cases hd : s.doneList with
  | nil => exact h.same rfl rfl rfl (fun _ => rfl) rfl rfl rfl rfl rfl ⟨rfl, rfl⟩ h.early h.stolen hraced
  | cons t l =>
    obtain ⟨hnote, hheld⟩ := hc t (by rw [hd]; rfl)
    obtain ⟨k, hst⟩ : ∃ k, s.status t = some (true, k) := by
      obtain ⟨x, hx, hx'⟩ := map_eq_some_iff.1 hnote
      exact ⟨x.state, by simp [status, hx, hx']⟩
    -- whoever is still to use a task finds its note unset
    have huse : ∀ x, s.Fits x → x.uses ≠ some t := fun x hx e => by
      obtain ⟨k', hk⟩ := hx.uses e
      cases hst.symm.trans hk
    have hne : ∀ u, u ≠ t → ({ s with tasks := Function.update s.tasks t none } : TaskGroup ι).status u = s.status u :=
      fun u hu => by simp [status, hu]
    have hself : ({ s with tasks := Function.update s.tasks t none } : TaskGroup ι).status t = none := by simp [status]
    have fits : ∀ {z : TaskGroup ι}, (∀ u, u ≠ t → z.status u = s.status u) → z.log = s.log → z.cancels = s.cancels →
        ∀ x, s.Fits x → z.Fits x := fun hz hl hcn x hx =>
      hx.frame (fun u hu => hz u fun e => huse x hx (e ▸ hu)) (fun _ _ => by rw [hl]) (fun u hu => hcn ▸ hu)
    refine ⟨⟨h.placed.perm, h.placed.pending⟩, ⟨fun u hu => fits hne rfl rfl _ (h.told.queue u hu),
      fun x hx => fits hne rfl rfl _ (h.told.hands x hx), fun u hu => fits hne rfl rfl _ (h.told.finished u hu),
      fun u => ?_, fun u hu => ?_, h.told.log⟩, ⟨h.staffed.idle, h.staffed.busy⟩, ?_, ?_, hraced⟩
    · have hag := h.told.agrees u
      by_cases e : u = t
      · subst e
        exact ⟨fun hcn => ⟨(hag.cancelled hcn).1, fun b k hb => nomatch hself.symm.trans hb⟩,
          (fun b hb => nomatch hself.symm.trans hb), fun _ b hb => nomatch hself.symm.trans hb⟩
      · exact ⟨fun hcn => ⟨(hag.cancelled hcn).1, fun b k hb => (hag.cancelled hcn).2 b k ((hne u e).symm.trans hb)⟩,
          fun b hb => hag.state b ((hne u e).symm.trans hb), fun hl b hb => hag.called hl b ((hne u e).symm.trans hb)⟩
    · by_cases e : u = t
      · rw [e]
        exact h.told.lt t (.inr (.inr (by rw [hst]; rfl)))
      · exact h.told.lt u (hu.imp_right (Or.imp_right fun hi => (hne u e) ▸ hi))
    · have : (s.workers.any fun x => x.uses = some t) = false :=
        any_eq_false.2 fun x hx => by simpa using huse x (h.told.hands x hx)
      simp [h.early, this]
    · have : (s.tasks t).any Task.held = false := Bool.of_not_eq_true hheld
      simp [h.stolen, this]

/-- **Step**: a clean step keeps the invariant. -/
theorem Inv.step {a : Act ι} (h : s.Inv) (hc : s.Clean a) (hs : s.step a = some s') : s'.Inv := by
  cases a with
  | submit θ memOk createOk =>
    obtain ⟨-, hs⟩ := ite_none_right_eq_some.1 hs
    cases hs
    exact h.taskSubmit hc
  | cancel t =>
    obtain ⟨-, hs⟩ := ite_none_right_eq_some.1 hs
    by_cases hk : (s.tasks t).map Task.state = some .queued
    · rw [if_pos hk] at hs
      cases hs
      exact h.cancel hk
    · rw [if_neg hk] at hs
      cases hs
      exact h
  | wait t | forget t =>
    obtain ⟨-, hs⟩ := ite_none_right_eq_some.1 hs
    cases hs
    rw [setTask_held]
    exact h.handles (f := fun _ _ => false) (g := fun u => decide (u = t))
  | groupWait θ =>
    obtain ⟨-, hs⟩ := ite_none_right_eq_some.1 hs
    cases hs
    exact h.handles (f := fun o b => b && decide (o ≠ θ)) (g := fun _ => true)
  | leave θ =>
    obtain ⟨-, hs⟩ := ite_none_right_eq_some.1 hs
    cases hs
    exact h.same rfl rfl rfl (fun _ => rfl) rfl rfl rfl rfl rfl ⟨rfl, rfl⟩ h.early h.stolen h.raced
  | drain θ =>
    obtain ⟨-, hs⟩ := ite_none_right_eq_some.1 hs
    cases hs
    exact h.drainOne (decide_eq_false hc.1) hc.2
  | worker i =>
    rw [TaskGroup.step] at hs
    cases hi : s.workers[i]? with
    | none => simp [hi] at hs
    | some x =>
      simp only [hi] at hs
      exact h.stepWorker hi hs

open Libx.Core (Run replay exists_run_of_replay)

/-- While no submit counts on a worker that another task counts on, and the done list is drained by one thread and of tasks
that are signalled and not held, tasks run once or are cancelled, the counts are right, structs are freed in time and
workers are there. -/
theorem keeps_of_clean {n k : ℕ} (h : Run step Clean ({ maxThreads := n, qcap := k } : TaskGroup ι) s) : s.Sound :=
  (h.preserves (fun _ _ _ hi hc hs => Inv.step hi hc hs) (inv_init n k)).sound

/-- A task is called and waited for, one is cancelled, and the group waited for. -/
theorem keeps_of_clean_two : ∃ s : TaskGroup ℕ, Run step Clean { maxThreads := 2 } s ∧ s.Sound ∧
    s.log = [0] ∧ s.cancels = [1] ∧ s.pending = 0 ∧ s.drainers = [] := by
  have hreplay : replay step (fun s a => decide (s.Clean a))
      (fun s : TaskGroup ℕ => decide (s.log = [0] ∧ s.cancels = [1] ∧ s.pending = 0 ∧ s.drainers = [])) { maxThreads := 2 }
      [.submit 0 true true, .worker 0, .worker 0, .worker 0, .worker 0, .submit 0 true true, .cancel 1, .worker 0, .worker 0,
        .worker 0, .wait 0, .worker 1, .worker 1, .worker 1, .worker 1, .worker 1, .groupWait 0, .leave 0, .drain 0, .drain 0,
        .drain 0] = true := by
    decide +kernel
  obtain ⟨s, hr, hp⟩ := exists_run_of_replay step Clean _ _ (fun _ _ => of_decide_eq_true) hreplay
  exact ⟨s, hr, keeps_of_clean hr, of_decide_eq_true hp⟩

/-- One worker waits, two tasks are submitted that count on it, and no second worker is made. -/
theorem not_keeps_idle : ¬∀ s : TaskGroup ℕ, Run step (fun _ _ => True) { maxThreads := 2 } s → s.Sound := by
  intro hall
  have hreplay : replay step (fun _ _ => true)
      (fun s : TaskGroup ℕ => decide (s.free < s.queue.length ∧ s.workers.length < s.maxThreads ∧ s.failed = false))
      { maxThreads := 2 }
      [.submit 0 true true, .worker 0, .worker 0, .worker 0, .worker 0, .worker 0, .worker 0, .worker 0, .worker 0,
        .submit 0 true true, .submit 0 true true] = true := by
    decide +kernel
  obtain ⟨s, hr, hp⟩ := exists_run_of_replay step (fun _ _ => True) _ _ (fun _ _ _ => trivial) hreplay
  obtain ⟨hfree, hlt, hfailed⟩ := of_decide_eq_true hp
  rcases (hall s hr).busy hfree with h | h
  · exact absurd hlt (Nat.not_lt.2 h)
  · exact nomatch hfailed.symm.trans h

end TaskGroup

end Libx.Base
