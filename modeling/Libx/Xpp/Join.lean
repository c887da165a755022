import Libx.Core.Run

/-!
# Libx.Xpp.Join — joining a spawned task

SpawnTaskBase::join_poll and wake_join, the JoinPromiseNode and the worker's completion of a task, one access at a time.
-/

namespace Libx.Xpp

inductive TaskState
  | pending
  | running
  | completed
  | detached
  deriving DecidableEq

inductive JoinState
  | empty
  | stored
  | woken
  deriving DecidableEq

/-- Where the join handle is: `join_poll` is called, has found the task unresolved, has written the waker; it returned
true; `take` or the destructor is about to delete the task; the handle is gone. -/
inductive HandleState (W : Type*)
  | idle
  | called (w : W)
  | writing (w : W)
  | trying (w : W)
  | ready
  | freeing
  | gone
  deriving DecidableEq

/-- Where the worker is: it polls the task; the poll returned false; it is about to set m_resolved, to exchange the state;
in `wake_join` it is about to try the CAS, has found a waker, has read it, has cleared the field; it has posted the
deletion; it is done.  `prev` is the state that the exchange found. -/
inductive WorkerState (W : Type*)
  | idle
  | polling
  | failing
  | resolving
  | exchanging
  | joining (prev : TaskState)
  | taking (prev : TaskState)
  | clearing (prev : TaskState) (jw : Option W)
  | waking (prev : TaskState) (jw : Option W)
  | deleting
  | done
  deriving DecidableEq

/-- A task with its handle and its worker; then the number of wakes when the current `join_poll` was called, the waker of
the latest `join_poll` that returned false with that number, the wakers woken, whether the task is destroyed, whether it
was accessed after that, and whether `take_raw` was called too early. -/
structure Join (W : Type*) where
  state : TaskState := .pending
  resolved : Bool := false
  joinState : JoinState := .empty
  joinWaker : Option W := none
  handle : HandleState W := .idle
  worker : WorkerState W := .idle
  began : ℕ := 0
  waits : Option (W × ℕ) := none
  woken : List W := []
  freed : Bool := false
  faulted : Bool := false
  early : Bool := false

namespace Join

/-- A call of `join_poll`, of `take`, of the destructor, the handle's next step; the worker claims the task, its poll
returns false or true, the worker's next step. -/
inductive Act (W : Type*)
  | poll (w : W)
  | take
  | drop
  | handle
  | claim
  | pending
  | ready
  | worker
  deriving DecidableEq

variable {W : Type*}

def touch (s : Join W) : Join W := { s with faulted := s.faulted || s.freed }

def free (s : Join W) : Join W := { s.touch with freed := true }

/-- `wake_join` has returned: a detached task is to be deleted by the loop. -/
def joined (s : Join W) (prev : TaskState) : Join W :=
  { s with worker := if prev = .detached then .deleting else .done }

def stepHandle (s : Join W) : Option (Join W) :=
  match s.handle with
  | .idle | .ready | .gone => none
  | .called w => some { s.touch with handle := if s.resolved then .ready else .writing w }
  | .writing w => some { s.touch with joinWaker := some w, handle := .trying w }
  | .trying w =>
    some (if s.joinState = .empty then
        { s.touch with joinState := .stored, handle := .idle, waits := some (w, s.began) }
      else { s.touch with handle := .ready })
  | .freeing => some { s.free with handle := .gone }

def stepWorker (s : Join W) : Option (Join W) :=
  match s.worker with
  | .idle | .polling | .done => none
  | .failing => some { s.touch with state := .pending, worker := .idle }
  | .resolving => some { s.touch with resolved := true, worker := .exchanging }
  | .exchanging => some { s.touch with state := .completed, worker := .joining s.state }
  | .joining prev =>
    some (if s.joinState = .empty then { s.touch with joinState := .woken }.joined prev
      else { s.touch with worker := .taking prev })
  | .taking prev => some { s.touch with worker := .clearing prev s.joinWaker }
  | .clearing prev jw => some { s.touch with joinWaker := none, worker := .waking prev jw }
  | .waking prev jw => some ({ s with woken := s.woken ++ jw.toList }.joined prev)
  | .deleting => some { s.free with worker := .done }

def step (s : Join W) : Act W → Option (Join W)
  | .poll w =>
    match s.handle with
    | .idle => some { s with handle := .called w, began := s.woken.length }
    | _ => none
  | .take =>
    match s.handle with
    | .ready => some { s.touch with handle := .freeing, early := s.early || !s.resolved }
    | _ => none
  | .drop =>
    match s.handle with
    | .idle | .ready =>
      some { s.touch with state := .detached, handle := if s.state = .completed then .freeing else .gone }
    | _ => none
  | .handle => s.stepHandle
  | .claim =>
    match s.worker with
    | .idle =>
      some (if s.state = .pending ∨ s.state = .detached then { s.touch with state := .running, worker := .polling }
        else s.touch)
    | _ => none
  | .pending =>
    match s.worker with
    | .polling => some { s.touch with worker := .failing }
    | _ => none
  | .ready =>
    match s.worker with
    | .polling => some { s.touch with worker := .resolving }
    | _ => none
  | .worker => s.stepWorker

/-! ### The property -/

/-- The worker does not access the task any more. -/
def Past : WorkerState W → Prop
  | .waking _ _ | .deleting | .done => True
  | _ => False

/-- `join_poll` is true only for a resolved task; one that returned false is followed by its wake; `take_raw` is called on
a resolved task; the task is destroyed once, after the last access. -/
structure Sound (s : Join W) : Prop where
  resolved : s.handle = .ready → s.resolved = true
  woke : s.worker = .done ∨ s.worker = .deleting → s.handle = .idle → ∀ w n, s.waits = some (w, n) → w ∈ s.woken.drop n
  take : s.early = false
  safe : s.faulted = false
  last : s.freed = true → s.handle = .gone ∧ Past s.worker
  freed : s.worker = .done → s.handle = .gone → s.freed = true

/-- The two sides do not cross: a second `join_poll` gets to its CAS only when the task is resolved; the handle deletes
the task when the worker is past its last access; a task that was detached is not claimed, and not put back to pending. -/
def Clean (s : Join W) : Act W → Prop
  | .handle =>
    match s.handle with
    | .trying _ => s.joinState = .stored → s.resolved = true
    | .freeing => Past s.worker
    | _ => True
  | .claim => s.state ≠ .detached
  | .worker => s.worker = .failing → s.state ≠ .detached
  | _ => True

/-! ### The invariant -/

/-- The handle was dropped while the task was not completed. -/
def Gone (x : TaskState) (h : HandleState W) : Prop := x = .detached ↔ h = .gone

/-- The task is completed, and its handle may have been dropped since. -/
def Finished (x : TaskState) (h : HandleState W) : Prop := x = .completed ∨ x = .detached ∧ (h = .freeing ∨ h = .gone)

/-- The latest `join_poll` returned false: its waker is stored. -/
def Kept (s : Join W) (jw : Option W) : Prop := s.handle = .idle → ∀ x ∈ s.waits, jw = some x.1 ∧ x.2 = 0

/-- What holds before the task is resolved. -/
@[mk_iff]
structure Before (s : Join W) : Prop where
  resolved : s.resolved = false
  ready : s.handle ≠ .ready ∧ s.handle ≠ .freeing

/-- What holds until `wake_join` has taken the waker. -/
@[mk_iff]
structure Early (s : Join W) : Prop where
  woken : s.woken = []
  freed : s.freed = false
  kept : s.Kept s.joinWaker
  writes : ∀ w, s.handle = .trying w → s.joinWaker = some w
  empty : s.joinState = .empty → s.waits = none

def Place (s : Join W) : WorkerState W → Prop
  | .idle => s.Before ∧ s.Early ∧ (s.state = .pending ∨ s.state = .detached) ∧ Gone s.state s.handle ∧
      s.joinState ≠ .woken
  | .polling | .failing | .resolving => s.Before ∧ s.Early ∧ (s.state = .running ∨ s.state = .detached) ∧
      Gone s.state s.handle ∧ s.joinState ≠ .woken
  | .exchanging => s.resolved = true ∧ s.Early ∧ (s.state = .running ∨ s.state = .detached) ∧ Gone s.state s.handle ∧
      s.joinState ≠ .woken
  | .joining prev => s.resolved = true ∧ s.Early ∧ Finished s.state s.handle ∧ Gone prev s.handle ∧
      s.joinState ≠ .woken
  | .taking prev => s.resolved = true ∧ s.Early ∧ Finished s.state s.handle ∧ Gone prev s.handle ∧
      s.joinState = .stored
  | .clearing prev jw => s.resolved = true ∧ s.woken = [] ∧ s.freed = false ∧ s.Kept jw ∧
      Finished s.state s.handle ∧ Gone prev s.handle ∧ s.joinState = .stored
  | .waking prev jw => s.resolved = true ∧ s.woken = [] ∧ s.Kept jw ∧ Finished s.state s.handle ∧
      (prev = .detached → s.handle = .gone ∧ s.freed = false) ∧ (prev ≠ .detached → (s.handle = .gone ↔ s.freed = true)) ∧
      s.joinState = .stored
  | .deleting => s.resolved = true ∧ s.handle = .gone ∧ s.freed = false ∧ Finished s.state s.handle ∧
      s.joinState ≠ .empty
  | .done => s.resolved = true ∧ (s.handle = .gone ↔ s.freed = true) ∧ Finished s.state s.handle ∧
      (s.handle = .idle → ∀ x ∈ s.waits, x.1 ∈ s.woken ∧ x.2 = 0) ∧ s.joinState ≠ .empty

structure Inv (s : Join W) : Prop where
  place : s.Place s.worker
  began : s.began ≤ s.woken.length
  take : s.early = false
  safe : s.faulted = false

variable {s s' : Join W} {w : W}

theorem inv_init : Inv ({} : Join W) where
  place := ⟨⟨rfl, nofun, nofun⟩, ⟨rfl, rfl, fun _ _ hx => (by cases hx), fun _ hw => (by cases hw), fun _ => rfl⟩, .inl rfl,
    ⟨nofun, nofun⟩, nofun⟩
  began := Nat.le_refl _
  take := rfl
  safe := rfl

theorem Place.freed (h : s.Place s.worker) (hp : ¬Past s.worker) : s.freed = false := by
  cases hw : s.worker with
  | idle | polling | failing | resolving | exchanging | joining prev | taking prev =>
    rw [hw] at h
    exact h.2.1.freed
  | clearing prev jw =>
    rw [hw] at h
    exact h.2.2.1
  | waking prev jw | deleting | done =>
    rw [hw] at hp
    exact absurd trivial hp

theorem Place.freed_of_handle (h : s.Place s.worker) (hg : s.handle ≠ .gone) : s.freed = false := by
  by_cases hp : Past s.worker
  · cases hw : s.worker with
    | waking prev jw =>
      rw [hw] at h
      obtain ⟨-, -, -, -, h1, h2, -⟩ := h
      by_cases hd : prev = .detached
      · exact (h1 hd).2
      · exact Bool.eq_false_iff.2 fun hf => hg ((h2 hd).2 hf)
    | deleting =>
      rw [hw] at h
      exact h.2.2.1
    | done =>
      rw [hw] at h
      exact Bool.eq_false_iff.2 fun hf => hg (h.2.1.2 hf)
    | idle | polling | failing | resolving | exchanging | joining prev | taking prev | clearing prev jw =>
      rw [hw] at hp
      exact hp.elim
  · exact h.freed hp

theorem touch_of_freed (h : s.freed = false) (hf : s.faulted = false) : s.touch.faulted = false := by
  rw [touch, h, hf]
  rfl

theorem inv_poll (hi : Inv s) (h : s.step (.poll w) = some s') : Inv s' := by
  obtain ⟨place, began, take, safe⟩ := hi
  rw [step] at h
  split at h
  case h_2 => cases h
  case h_1 hh =>
  cases h
  refine ⟨?_, Nat.le_refl _, take, safe⟩
  change Place _ s.worker
  cases hw : s.worker <;> rw [hw] at place <;> simp only [Place, Gone, Finished, Kept, early_iff, before_iff, hh] at place ⊢ <;> grind

theorem inv_take (hi : Inv s) (h : s.step .take = some s') : Inv s' := by
  obtain ⟨place, began, take, safe⟩ := hi
  rw [step] at h
  split at h
  case h_2 => cases h
  case h_1 hh =>
  cases h
  have hf : s.freed = false := place.freed_of_handle (by rw [hh]; nofun)
  have hres : s.resolved = true := by
    cases hw : s.worker <;> rw [hw] at place <;> simp only [Place, before_iff, hh] at place <;> grind
  refine ⟨?_, began, by rw [take, hres]; rfl, touch_of_freed hf safe⟩
  change Place _ s.worker
  cases hw : s.worker <;> rw [hw] at place <;> simp only [Place, Gone, Finished, Kept, early_iff, before_iff, touch, hh] at place ⊢ <;>
    grind

theorem inv_drop (hi : Inv s) (h : s.step .drop = some s') : Inv s' := by
  obtain ⟨place, began, take, safe⟩ := hi
  have hcase : (s.handle = .idle ∨ s.handle = .ready) ∧
      s' = { s.touch with state := .detached, handle := if s.state = .completed then .freeing else .gone } := by
    rw [step] at h
    split at h
    · next hh => exact ⟨.inl hh, (Option.some.inj h).symm⟩
    · next hh => exact ⟨.inr hh, (Option.some.inj h).symm⟩
    · cases h
  obtain ⟨hh, rfl⟩ := hcase
  have hf : s.freed = false := place.freed_of_handle (by rcases hh with hh | hh <;> rw [hh] <;> nofun)
  refine ⟨?_, began, take, touch_of_freed hf safe⟩
  change Place _ s.worker
  cases hw : s.worker <;> rw [hw] at place <;> simp only [Place, Gone, Finished, Kept, early_iff, before_iff, touch] at place ⊢ <;>
    grind

theorem inv_stepHandle (hi : Inv s) (hc : s.Clean .handle) (h : s.stepHandle = some s') : Inv s' := by
  obtain ⟨place, began, take, safe⟩ := hi
  rw [Clean] at hc
  rw [stepHandle] at h
  cases hh : s.handle with
  | idle | ready | gone =>
    rw [hh] at h
    cases h
  | called w | writing w =>
    rw [hh] at h
    cases h
    have hf : s.freed = false := place.freed_of_handle (by rw [hh]; nofun)
    refine ⟨?_, began, take, touch_of_freed hf safe⟩
    change Place _ s.worker
    cases hw : s.worker <;> rw [hw] at place <;>
      simp only [Place, Gone, Finished, Kept, early_iff, before_iff, touch, hh] at place ⊢ <;> grind
  | trying w =>
    rw [hh] at h hc
    have hf : s.freed = false := place.freed_of_handle (by rw [hh]; nofun)
    rw [Option.some.injEq] at h
    split at h
    · next he =>
      subst h
      refine ⟨?_, began, take, touch_of_freed hf safe⟩
      change Place _ s.worker
      cases hw : s.worker <;> rw [hw] at place <;>
        simp only [Place, Gone, Finished, Kept, early_iff, before_iff, touch, hh] at place ⊢ <;> grind
    · next he =>
      subst h
      have hj : s.joinState = .stored ∨ s.joinState = .woken := by
        cases hj : s.joinState with
        | empty => exact absurd hj he
        | stored => exact .inl rfl
        | woken => exact .inr rfl
      refine ⟨?_, began, take, touch_of_freed hf safe⟩
      change Place _ s.worker
      cases hw : s.worker <;> rw [hw] at place <;>
        simp only [Place, Gone, Finished, Kept, early_iff, before_iff, touch, hh] at place ⊢ <;> grind
  | freeing =>
    rw [hh] at h hc
    cases h
    have hf : s.freed = false := place.freed_of_handle (by rw [hh]; nofun)
    refine ⟨?_, began, take, touch_of_freed hf safe⟩
    change Place _ s.worker
    cases hw : s.worker <;> rw [hw] at place hc <;>
      simp only [Place, Gone, Finished, Kept, early_iff, before_iff, touch, free, Past, hh] at place hc ⊢ <;> grind

variable {prev : TaskState}

theorem Place.joined (h1 : prev = .detached → s.Place .deleting) (h2 : prev ≠ .detached → s.Place .done) :
    (s.joined prev).Place (s.joined prev).worker := by
  change (s.joined prev).Place (if prev = .detached then .deleting else .done)
  split
  · next hd => exact h1 hd
  · next hd => exact h2 hd

theorem inv_worker_call {m : Act W} (hi : Inv s) (hc : s.Clean m) (hm : m = .claim ∨ m = .pending ∨ m = .ready)
    (h : s.step m = some s') : Inv s' := by
  obtain ⟨place, began, take, safe⟩ := hi
  rcases hm with rfl | rfl | rfl
  · rw [Clean] at hc
    rw [step] at h
    split at h
    case h_2 => cases h
    case h_1 hw =>
    have hf : s.freed = false := place.freed (by rw [hw]; exact id)
    rw [hw] at place
    simp only [Place, Gone, Kept, early_iff, before_iff] at place
    rw [if_pos (.inl (by grind))] at h
    cases h
    refine ⟨?_, began, take, touch_of_freed hf safe⟩
    simp only [Place, Gone, Kept, early_iff, before_iff, touch]
    grind
  all_goals
    rw [step] at h
    split at h
    case h_2 => cases h
    case h_1 hw =>
    have hf : s.freed = false := place.freed (by rw [hw]; exact id)
    rw [hw] at place
    cases h
    refine ⟨?_, began, take, touch_of_freed hf safe⟩
    simp only [Place, Gone, Kept, early_iff, before_iff, touch] at place ⊢
    exact place

theorem inv_joining (hi : Inv s) (hw : s.worker = .joining prev) (h : s.stepWorker = some s') : Inv s' := by
  obtain ⟨place, began, take, safe⟩ := hi
  rw [stepWorker] at h
  have hf : s.freed = false := place.freed (by rw [hw]; exact id)
  rw [hw] at h place
  rw [Option.some.injEq] at h
  split at h
  · next he =>
    subst h
    obtain ⟨h1, h2, h3, h4, -⟩ := place
    refine ⟨?_, began, take, touch_of_freed hf safe⟩
    refine Place.joined (fun hd => ⟨h1, h4.1 hd, hf, h3, nofun⟩) fun hd => ⟨h1, ?_, h3, fun _ x hx => ?_, nofun⟩
    · exact ⟨fun hg => absurd (h4.2 hg) hd, fun hfr => absurd (hf.symm.trans hfr) Bool.false_ne_true⟩
    · cases (h2.empty he).symm.trans hx
  · next he =>
    subst h
    refine ⟨?_, began, take, touch_of_freed hf safe⟩
    simp only [Place, Gone, Finished, Kept, early_iff, touch] at place ⊢
    refine ⟨place.1, place.2.1, place.2.2.1, place.2.2.2.1, ?_⟩
    cases hj : s.joinState with
    | empty => exact absurd hj he
    | stored => rfl
    | woken => exact absurd hj place.2.2.2.2

theorem inv_waking {jw : Option W} (hi : Inv s) (hw : s.worker = .waking prev jw) (h : s.stepWorker = some s') : Inv s' := by
  obtain ⟨place, began, take, safe⟩ := hi
  rw [stepWorker] at h
  rw [hw] at h place
  cases h
  obtain ⟨h1, h2, h3, h4, h5, h6, h7⟩ := place
  refine ⟨?_, ?_, take, safe⟩
  · have he : s.joinState ≠ .empty := by
      rw [h7]
      nofun
    refine Place.joined (fun hd => ⟨h1, (h5 hd).1, (h5 hd).2, h4, he⟩) fun hd =>
      ⟨h1, h6 hd, h4, fun hh x hx => ?_, he⟩
    obtain ⟨hj, hn⟩ := h3 hh x hx
    refine ⟨List.mem_append_right _ ?_, hn⟩
    rw [hj]
    exact List.mem_singleton_self _
  · change s.began ≤ (s.woken ++ jw.toList).length
    rw [List.length_append]
    exact Nat.le_add_right_of_le began

theorem inv_stepWorker (hi : Inv s) (hc : s.Clean .worker) (h : s.stepWorker = some s') : Inv s' := by
  have ⟨place, began, take, safe⟩ := hi
  rw [stepWorker] at h
  cases hw : s.worker with
  | idle | polling | done =>
    rw [hw] at h
    cases h
  | failing =>
    have hf : s.freed = false := place.freed (by rw [hw]; exact id)
    rw [Clean] at hc
    have hd := hc hw
    rw [hw] at h place
    cases h
    refine ⟨?_, began, take, touch_of_freed hf safe⟩
    simp only [Place, Gone, Kept, early_iff, before_iff, touch] at place ⊢
    grind
  | resolving =>
    have hf : s.freed = false := place.freed (by rw [hw]; exact id)
    rw [hw] at h place
    cases h
    refine ⟨?_, began, take, touch_of_freed hf safe⟩
    simp only [Place, Gone, Kept, early_iff, before_iff, touch] at place ⊢
    exact ⟨trivial, place.2⟩
  | exchanging =>
    have hf : s.freed = false := place.freed (by rw [hw]; exact id)
    rw [hw] at h place
    cases h
    refine ⟨?_, began, take, touch_of_freed hf safe⟩
    simp only [Place, Gone, Finished, Kept, early_iff, touch] at place ⊢
    exact ⟨place.1, place.2.1, .inl trivial, place.2.2.2⟩
  | joining prev => exact inv_joining hi hw h
  | taking prev =>
    have hf : s.freed = false := place.freed (by rw [hw]; exact id)
    rw [hw] at h place
    cases h
    obtain ⟨h1, h2, h3, h4, h5⟩ := place
    exact ⟨⟨h1, h2.woken, hf, h2.kept, h3, h4, h5⟩, began, take, touch_of_freed hf safe⟩
  | clearing prev jw =>
    have hf : s.freed = false := place.freed (by rw [hw]; exact id)
    rw [hw] at h place
    cases h
    refine ⟨?_, began, take, touch_of_freed hf safe⟩
    simp only [Place, Gone, Finished, Kept, touch] at place ⊢
    grind
  | waking prev jw => exact inv_waking hi hw h
  | deleting =>
    rw [hw] at h place
    cases h
    obtain ⟨h1, h2, h3, h4, h5⟩ := place
    refine ⟨?_, began, take, touch_of_freed h3 safe⟩
    exact ⟨h1, ⟨fun _ => rfl, fun _ => h2⟩, h4, fun hh => (by cases h2.symm.trans hh), h5⟩

theorem inv_step {m : Act W} (hi : Inv s) (hc : s.Clean m) (h : s.step m = some s') : Inv s' := by
  cases m with
  | poll w => exact inv_poll hi h
  | take => exact inv_take hi h
  | drop => exact inv_drop hi h
  | handle => exact inv_stepHandle hi hc h
  | claim => exact inv_worker_call hi hc (.inl rfl) h
  | pending => exact inv_worker_call hi hc (.inr (.inl rfl)) h
  | ready => exact inv_worker_call hi hc (.inr (.inr rfl)) h
  | worker => exact inv_stepWorker hi hc h

theorem Inv.isSound (hi : Inv s) : s.Sound where
  resolved hh := by
    have place := hi.place
    cases hw : s.worker with
    | idle | polling | failing | resolving =>
      rw [hw] at place
      exact absurd hh place.1.ready.1
    | exchanging | joining prev | taking prev | clearing prev jw | waking prev jw | deleting | done =>
      rw [hw] at place
      exact place.1
  woke hw hh w n hx := by
    have place := hi.place
    rcases hw with hw | hw
    · rw [hw] at place
      obtain ⟨-, -, -, h4, -⟩ := place
      obtain ⟨hm, hn⟩ := h4 hh _ hx
      have hn : n = 0 := hn
      rw [hn, List.drop_zero]
      exact hm
    · rw [hw] at place
      cases hh.symm.trans place.2.1
  take := hi.take
  safe := hi.safe
  last hf := by
    constructor
    · by_contra hg
      exact Bool.false_ne_true ((hi.place.freed_of_handle hg).symm.trans hf)
    · by_contra hp
      exact Bool.false_ne_true ((hi.place.freed hp).symm.trans hf)
  freed hw hg := by
    have place := hi.place
    rw [hw] at place
    exact place.2.1.1 hg

open Libx.Core (Run replay exists_run_of_replay)

/-- While the two sides do not cross, a join is woken, it is true only for a resolved task, and the task is destroyed once,
after its last use. -/
theorem sound_of_clean (h : Run step Clean ({} : Join W) s) : s.Sound :=
  (h.preserves (fun _ _ _ hi hc hs => inv_step hi hc hs) inv_init).isSound

instance : (x : WorkerState W) → Decidable (Past x)
  | .waking _ _ | .deleting | .done => isTrue trivial
  | .idle | .polling | .failing | .resolving | .exchanging | .joining _ | .taking _ | .clearing _ _ => isFalse id

instance [DecidableEq W] (s : Join W) : (m : Act W) → Decidable (s.Clean m)
  | .poll _ | .take | .drop | .pending | .ready => isTrue trivial
  | .claim => inferInstanceAs (Decidable (s.state ≠ .detached))
  | .worker => inferInstanceAs (Decidable (s.worker = .failing → s.state ≠ .detached))
  | .handle =>
    match s with
    | { handle := .trying _, joinState := j, resolved := r, .. } => inferInstanceAs (Decidable (j = .stored → r = true))
    | { handle := .freeing, worker := x, .. } => inferInstanceAs (Decidable (Past x))
    | { handle := .idle, .. } | { handle := .called _, .. } | { handle := .writing _, .. } | { handle := .ready, .. }
    | { handle := .gone, .. } => isTrue trivial

/-- A `join_poll` that waits, a task that is polled twice, its wake, and `take`. -/
theorem sound_of_clean_take : ∃ s : Join ℕ, Run step Clean {} s ∧ s.Sound ∧ s.woken = [1] ∧ s.freed = true := by
  have hreplay : replay step (fun s m => decide (s.Clean m)) (fun s : Join ℕ => decide (s.woken = [1] ∧ s.freed = true)) {}
      [.claim, .poll 1, .handle, .pending, .handle, .worker, .handle, .claim, .ready, .worker, .worker, .worker, .worker,
        .worker, .worker, .poll 2, .handle, .take, .handle] = true := by
    decide +kernel
  obtain ⟨s, hr, hp⟩ := exists_run_of_replay step Clean _ _ (fun _ _ => of_decide_eq_true) hreplay
  exact ⟨s, hr, sound_of_clean hr, of_decide_eq_true hp⟩

/-- A second `join_poll` finds JoinStored, and takes it for completion. -/
theorem not_sound_twice : ¬∀ s : Join ℕ, Run step (fun _ _ => True) {} s → s.Sound := by
  intro hall
  have hreplay : replay step (fun _ _ => true) (fun s : Join ℕ => decide (s.handle = .ready ∧ s.resolved = false)) {}
      [.poll 1, .handle, .handle, .handle, .poll 2, .handle, .handle, .handle] = true := by
    decide +kernel
  obtain ⟨s, hr, hp⟩ := exists_run_of_replay step (fun _ _ => True) _ _ (fun _ _ _ => trivial) hreplay
  obtain ⟨h1, h2⟩ := of_decide_eq_true hp
  exact Bool.false_ne_true (h2.symm.trans ((hall s hr).resolved h1))

end Join

end Libx.Xpp
