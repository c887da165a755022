import Libx.Core.Run

/-!
# Libx.Xpp.Mutex — the asynchronous lock

sync/mutex.h.  The calls of `lock` are numbered; a release takes the first waiter off the queue, resolves its promise and
wakes it, in three steps.
-/

namespace Libx.Xpp

open List

/-- The promise of a call of `lock`: it is not there yet; its adapter waits; it has the guard; the guard was taken; it was
dropped. -/
inductive PromiseState
  | absent
  | waiting
  | granted
  | taken
  | dropped
  deriving DecidableEq

/-- The lock; the guards in the users' hands; the releases that have taken a waiter off the queue, those that have
resolved it and are about to wake it; then the promises of which a poll was true, the order of the grants, and whether
the adapter of a dropped promise was accessed. -/
structure Mutex where
  locked : Bool := false
  queue : List ℕ := []
  promises : ℕ → PromiseState := fun _ => .absent
  next : ℕ := 0
  guards : ℕ := 0
  handing : List ℕ := []
  waking : List ℕ := []
  ready : ℕ → Bool := fun _ => false
  grants : List ℕ := []
  faulted : Bool := false

namespace Mutex

/-- `lock`, `try_lock`, a poll of a promise, `take` from it, its destructor, the destructor of a guard; a release resolves
the waiter it has taken off the queue, and wakes it. -/
inductive Act
  | lock
  | tryLock
  | poll (i : ℕ)
  | take (i : ℕ)
  | drop (i : ℕ)
  | release
  | resolve (i : ℕ)
  | wake (i : ℕ)
  deriving DecidableEq

def setPromise (s : Mutex) (i : ℕ) (x : PromiseState) : Mutex :=
  { s with promises := Function.update s.promises i x }

/-- `unlock`, up to the end of the critical section. -/
def unlock (s : Mutex) : Mutex :=
  match s.queue with
  | w :: rest => { s with queue := rest, handing := s.handing ++ [w] }
  | [] => { s with locked := false }

def step (s : Mutex) : Act → Option Mutex
  | .lock =>
    some (if s.locked then { s.setPromise s.next .waiting with next := s.next + 1, queue := s.queue ++ [s.next] }
      else { s.setPromise s.next .granted with next := s.next + 1, locked := true, grants := s.grants ++ [s.next] })
  | .tryLock => some (if s.locked then s else { s with locked := true, guards := s.guards + 1 })
  | .poll i =>
    match s.promises i with
    | .waiting => some s
    | .granted => some { s with ready := Function.update s.ready i true }
    | _ => none
  | .take i =>
    match s.promises i with
    | .granted => if s.ready i then some { s.setPromise i .taken with guards := s.guards + 1 } else none
    | _ => none
  | .drop i =>
    match s.promises i with
    | .waiting | .taken => some (s.setPromise i .dropped)
    | .granted => some (s.setPromise i .dropped).unlock
    | _ => none
  | .release => if s.guards = 0 then none else some { s with guards := s.guards - 1 }.unlock
  | .resolve i =>
    if i ∈ s.handing then
      match s.promises i with
      | .waiting => some { s.setPromise i .granted with
          handing := s.handing.erase i, waking := s.waking ++ [i], grants := s.grants ++ [i] }
      | _ => some { s with handing := s.handing.erase i, waking := s.waking ++ [i], faulted := true }
    else none
  | .wake i =>
    if i ∈ s.waking then
      some { s with waking := s.waking.erase i, faulted := s.faulted || decide (s.promises i = .dropped) }
    else none

/-! ### The property -/

def Holds (s : Mutex) (i : ℕ) : Prop := s.promises i = .granted

/-- One holder at a time, in the order of the calls: of all calls of `lock`, the first have been granted, at most one is
being handed the lock, and the rest waits.  The lock is held by a guard or by a promise that exists, or the guard that
releases it is still in its destructor. -/
structure Fair (s : Mutex) : Prop where
  guards : s.guards ≤ 1
  one : ∀ i j, s.Holds i → s.Holds j → i = j
  apart : ∀ i, s.Holds i → s.guards = 0
  order : s.grants ++ s.handing ++ s.queue = List.range s.next
  handing : s.handing ≠ [] → s.handing.length = 1 ∧ s.guards = 0 ∧ ∀ i, ¬s.Holds i
  held : s.locked = true → s.handing = [] → s.guards = 1 ∨ ∃ i, s.Holds i
  free : s.locked = false → s.queue = [] ∧ s.handing = [] ∧ s.guards = 0 ∧ ∀ i, ¬s.Holds i
  safe : s.faulted = false

/-- A release resolves, and wakes, only a waiter whose promise exists. -/
def Clean (s : Mutex) : Act → Prop
  | .resolve i => s.promises i ≠ .dropped
  | .wake i => s.promises i ≠ .dropped
  | _ => True

instance (s : Mutex) : (m : Act) → Decidable (s.Clean m)
  | .resolve i | .wake i => inferInstanceAs (Decidable (s.promises i ≠ .dropped))
  | .lock | .tryLock | .poll _ | .take _ | .drop _ | .release => isTrue trivial

/-! ### The invariant -/

/-- Who has the lock. -/
inductive Owner
  | nobody
  | guard
  | promise (i : ℕ)
  | handing (i : ℕ)

def Owner.guards : Owner → ℕ
  | .guard => 1
  | _ => 0

def Owner.hands : Owner → List ℕ
  | .handing i => [i]
  | _ => []

/-- The lock is with `o`. -/
structure Owned (s : Mutex) (o : Owner) : Prop where
  locked : s.locked = false ↔ o = .nobody
  guards : s.guards = o.guards
  holds : ∀ i, s.Holds i ↔ o = .promise i
  handing : s.handing = o.hands
  queue : o = .nobody → s.queue = []

/-- The calls of `lock`, in their order. -/
structure Calls (s : Mutex) : Prop where
  order : s.grants ++ s.handing ++ s.queue = List.range s.next
  absent : ∀ i, s.promises i = .absent ↔ s.next ≤ i
  pending : ∀ i ∈ s.handing ++ s.queue, s.promises i = .waiting ∨ s.promises i = .dropped
  safe : s.faulted = false

structure Inv (s : Mutex) : Prop where
  owned : ∃ o, s.Owned o
  calls : s.Calls

variable {s s' : Mutex} {i : ℕ}

theorem Inv.isFair (hi : Inv s) : s.Fair := by
  obtain ⟨⟨o, h1, h2, h3, h4, h5⟩, hc⟩ := hi
  refine ⟨?_, fun i j hi hj => ?_, fun i hi => ?_, hc.order, fun hne => ?_, fun hl hh => ?_, fun hl => ?_, hc.safe⟩
  · rw [h2]
    cases o <;> simp [Owner.guards]
  · exact Owner.promise.inj (((h3 i).1 hi).symm.trans ((h3 j).1 hj))
  · rw [h2, (h3 i).1 hi]
    rfl
  · cases o with
    | handing i =>
      refine ⟨by rw [h4]; rfl, h2, fun j hj => ?_⟩
      cases (h3 j).1 hj
    | nobody | guard | promise i => exact absurd h4 hne
  · cases o with
    | nobody => exact absurd (hl.symm.trans (h1.2 rfl)) (by decide)
    | guard => exact .inl h2
    | promise i => exact .inr ⟨i, (h3 i).2 rfl⟩
    | handing i => cases h4.symm.trans hh
  · cases h1.1 hl
    exact ⟨h5 rfl, h4, h2, fun i hi => by cases (h3 i).1 hi⟩

/-! ### The steps -/

theorem inv_init : Inv {} where
  owned := by
    refine ⟨.nobody, ⟨fun _ => rfl, fun _ => rfl⟩, rfl, fun i => ⟨fun h => ?_, fun h => ?_⟩, rfl, fun _ => rfl⟩
    · cases (show PromiseState.absent = .granted from h)
    · cases h
  calls := by
    refine ⟨rfl, fun i => ⟨fun _ => Nat.zero_le i, fun _ => rfl⟩, fun i hi => ?_, rfl⟩
    exact absurd hi not_mem_nil

theorem promises_set (s : Mutex) (i j : ℕ) (x : PromiseState) :
    (s.setPromise i x).promises j = if j = i then x else s.promises j :=
  Function.update_apply ..

variable {x : PromiseState}

theorem Owned.set {o : Owner} (h : s.Owned o) (hx : x ≠ .granted) (hi : ¬s.Holds i) :
    (s.setPromise i x).Owned o where
  locked := h.locked
  guards := h.guards
  holds j := by
    rw [Holds, promises_set]
    split
    · next hj =>
      subst hj
      exact ⟨fun e => absurd e hx, fun e => absurd ((h.holds j).2 e) hi⟩
    · exact h.holds j
  handing := h.handing
  queue := h.queue

theorem Calls.set (h : s.Calls) (hx : x ≠ .absent) (hi : s.promises i ≠ .absent)
    (hw : i ∈ s.handing ++ s.queue → x = .waiting ∨ x = .dropped) : (s.setPromise i x).Calls where
  order := h.order
  absent j := by
    rw [promises_set]
    split
    · next hj =>
      subst hj
      exact ⟨fun e => absurd e hx, fun e => absurd ((h.absent j).2 e) hi⟩
    · exact h.absent j
  pending j hj := by
    rw [promises_set]
    split
    · next hji =>
      subst hji
      exact hw hj
    · exact h.pending j hj
  safe := h.safe

theorem inv_unlock (hc : s.Calls) (hl : s.locked = true) (hg : s.guards = 0) (hh : ∀ i, ¬s.Holds i)
    (hd : s.handing = []) : Inv s.unlock := by
  rw [unlock]
  split
  · next w rest hq =>
    refine ⟨⟨.handing w, ⟨fun h => ?_, nofun⟩, hg, fun i => ⟨fun h => absurd h (hh i), nofun⟩, ?_, nofun⟩, ?_, hc.absent,
      fun i hi => hc.pending i ?_, hc.safe⟩
    · exact absurd (hl.symm.trans h) (by decide)
    · change s.handing ++ [w] = [w]
      rw [hd, nil_append]
    · have := hc.order
      rw [hq] at this
      simpa using this
    · rw [hq]
      simpa using hi
  · next hq =>
    exact ⟨⟨.nobody, ⟨fun _ => rfl, fun _ => rfl⟩, hg, fun i => ⟨fun h => absurd h (hh i), nofun⟩, hd, fun _ => hq⟩,
      hc.order, hc.absent, hc.pending, hc.safe⟩

theorem Calls.call (h : s.Calls) (hx : x ≠ .absent) (i : ℕ) :
    (s.setPromise s.next x).promises i = .absent ↔ s.next + 1 ≤ i := by
  rw [promises_set]
  split
  · next hi =>
    subst hi
    exact ⟨fun e => absurd e hx, fun e => absurd e (Nat.not_succ_le_self _)⟩
  · next hi =>
    rw [h.absent i]
    omega

theorem inv_lock (hi : Inv s) (h : s.step .lock = some s') : Inv s' := by
  obtain ⟨⟨o, ho⟩, hc⟩ := hi
  have hnext : s.promises s.next = .absent := (hc.absent s.next).2 le_rfl
  have hnot : ¬s.Holds s.next := by
    rw [Holds, hnext]
    nofun
  rw [step, Option.some.injEq] at h
  split at h
  · next hl =>
    subst h
    have hset := ho.set (x := .waiting) nofun hnot
    refine ⟨⟨o, hset.locked, hset.guards, hset.holds, hset.handing, fun he => ?_⟩, ?_, hc.call nofun, fun i hm => ?_,
      hc.safe⟩
    · exact absurd (hl.symm.trans (ho.locked.2 he)) (by decide)
    · change s.grants ++ s.handing ++ (s.queue ++ [s.next]) = List.range (s.next + 1)
      rw [range_succ, ← hc.order]
      simp
    · change (s.setPromise s.next .waiting).promises i = _ ∨ _
      rw [promises_set]
      split
      · exact .inl rfl
      · next hne =>
        refine hc.pending i ?_
        have hm : i ∈ s.handing ++ (s.queue ++ [s.next]) := hm
        simpa [hne] using hm
  · next hl =>
    subst h
    cases ho.locked.1 (Bool.eq_false_iff.2 hl)
    have hq := ho.queue rfl
    have hd : s.handing = [] := ho.handing
    refine ⟨⟨.promise s.next, ⟨nofun, nofun⟩, ho.guards, fun i => ?_, hd, nofun⟩, ?_, hc.call nofun, fun i hm => ?_, hc.safe⟩
    · change (s.setPromise s.next .granted).promises i = .granted ↔ _
      rw [promises_set]
      split
      · next he => exact ⟨fun _ => by rw [he], fun _ => rfl⟩
      · next he =>
        refine ⟨fun hh => ?_, fun hh => absurd (Owner.promise.inj hh).symm he⟩
        cases (ho.holds i).1 hh
    · change s.grants ++ [s.next] ++ s.handing ++ s.queue = List.range (s.next + 1)
      rw [range_succ, ← hc.order, hq, hd]
      simp
    · have hm : i ∈ s.handing ++ s.queue := hm
      rw [hq, hd] at hm
      exact absurd hm not_mem_nil

theorem inv_tryLock (hi : Inv s) (h : s.step .tryLock = some s') : Inv s' := by
  rw [step, Option.some.injEq] at h
  split at h
  · subst h
    exact hi
  · next hl =>
    subst h
    obtain ⟨⟨o, ho⟩, hc⟩ := hi
    cases ho.locked.1 (Bool.eq_false_iff.2 hl)
    refine ⟨⟨.guard, ⟨nofun, nofun⟩, ?_, fun i => ⟨fun hh => ?_, nofun⟩, ho.handing, nofun⟩, hc.order, hc.absent, hc.pending,
      hc.safe⟩
    · change s.guards + 1 = 1
      rw [ho.guards]
      rfl
    · cases (ho.holds i).1 hh

theorem inv_poll (hi : Inv s) (h : s.step (.poll i) = some s') : Inv s' := by
  obtain ⟨⟨o, ho⟩, hc⟩ := hi
  rw [step] at h
  split at h
  · cases h
    exact ⟨⟨o, ho⟩, hc⟩
  · cases h
    exact ⟨⟨o, ho.locked, ho.guards, ho.holds, ho.handing, ho.queue⟩, hc.order, hc.absent, hc.pending, hc.safe⟩
  · cases h

theorem Owned.handing_of_holds {o : Owner} (ho : s.Owned o) (hh : s.Holds i) : s.handing = [] := by
  rw [ho.handing, (ho.holds i).1 hh]
  rfl

theorem Calls.not_pending (h : s.Calls) (hh : s.Holds i) : i ∉ s.handing ++ s.queue := by
  intro hm
  rcases h.pending i hm with hp | hp
  · cases hh.symm.trans hp
  · cases hh.symm.trans hp

theorem Owned.no_holder {o : Owner} (ho : s.Owned o) (hh : s.Holds i) (hx : x ≠ .granted) (j : ℕ) :
    ¬(s.setPromise i x).Holds j := by
  rw [Holds, promises_set]
  split
  · exact hx
  · next hne =>
    intro hj
    exact hne (Owner.promise.inj (((ho.holds j).1 hj).symm.trans ((ho.holds i).1 hh)))

theorem inv_take (hi : Inv s) (h : s.step (.take i) = some s') : Inv s' := by
  obtain ⟨⟨o, ho⟩, hc⟩ := hi
  rw [step] at h
  split at h
  case h_2 => cases h
  case h_1 hh =>
  split at h
  case isFalse => cases h
  case isTrue hr =>
  cases h
  have hset := hc.set (i := i) (x := .taken) nofun (by rw [hh]; nofun) fun hm => absurd hm (hc.not_pending hh)
  have howner := (ho.holds i).1 hh
  refine ⟨⟨.guard, ⟨fun hl => ?_, nofun⟩, ?_, fun j => ⟨fun hj => ?_, nofun⟩, ho.handing_of_holds hh, nofun⟩, hset.order,
    hset.absent, hset.pending, hset.safe⟩
  · cases howner.symm.trans (ho.locked.1 hl)
  · change s.guards + 1 = 1
    rw [ho.guards, howner]
    rfl
  · exact (ho.no_holder hh (show PromiseState.taken ≠ .granted by nofun) j hj).elim

theorem inv_drop (hi : Inv s) (h : s.step (.drop i) = some s') : Inv s' := by
  obtain ⟨⟨o, ho⟩, hc⟩ := hi
  have hkeep : s.promises i ≠ .absent → s.promises i ≠ .granted → Inv (s.setPromise i .dropped) := fun hp hg =>
    ⟨⟨o, ho.set nofun hg⟩, hc.set nofun hp fun _ => .inr rfl⟩
  rw [step] at h
  split at h
  · next hp =>
    cases h
    exact hkeep (by rw [hp]; nofun) (by rw [hp]; nofun)
  · next hp =>
    cases h
    exact hkeep (by rw [hp]; nofun) (by rw [hp]; nofun)
  · next hh =>
    cases h
    have howner := (ho.holds i).1 hh
    refine inv_unlock (hc.set nofun (by rw [hh]; nofun) fun _ => .inr rfl) ?_ ?_ (ho.no_holder hh nofun)
      (ho.handing_of_holds hh)
    · refine Bool.of_not_eq_false fun hl => ?_
      cases howner.symm.trans (ho.locked.1 hl)
    · change s.guards = 0
      rw [ho.guards, howner]
      rfl
  · cases h

theorem inv_release (hi : Inv s) (h : s.step .release = some s') : Inv s' := by
  obtain ⟨⟨o, ho⟩, hc⟩ := hi
  rw [step] at h
  split at h
  · cases h
  · next hg =>
    cases h
    have howner : o = .guard := by
      have := ho.guards
      cases o with
      | guard => rfl
      | nobody | promise j | handing j => exact absurd this hg
    subst howner
    refine inv_unlock ⟨hc.order, hc.absent, hc.pending, hc.safe⟩ ?_ ?_ (fun j hj => ?_) ho.handing
    · refine Bool.of_not_eq_false fun hl => ?_
      cases ho.locked.1 hl
    · change s.guards - 1 = 0
      rw [ho.guards]
      rfl
    · cases (ho.holds j).1 hj

theorem inv_resolve (hi : Inv s) (hc : s.Clean (.resolve i)) (h : s.step (.resolve i) = some s') : Inv s' := by
  obtain ⟨⟨o, ho⟩, hcalls⟩ := hi
  rw [step] at h
  split at h
  case isFalse => cases h
  case isTrue hm =>
  have hpend : s.promises i = .waiting := (hcalls.pending i (mem_append_left _ hm)).resolve_right hc
  obtain ⟨k, rfl⟩ : ∃ k, o = .handing k := by
    have := ho.handing
    cases o with
    | handing k => exact ⟨k, rfl⟩
    | nobody | guard | promise j => exact absurd hm (by rw [this]; exact not_mem_nil)
  have hd : s.handing = [k] := ho.handing
  have hik : i = k := mem_singleton.1 (hd ▸ hm)
  subst hik
  rw [hpend] at h
  cases h
  have herase : s.handing.erase i = [] := by rw [hd, erase_cons_head]
  have hnodup : i ∉ s.queue := fun hq => by
    have hr : (List.range s.next).Nodup := nodup_range
    rw [← hcalls.order, hd] at hr
    exact (nodup_append.1 hr).2.2 i (by simp) i hq rfl
  refine ⟨⟨.promise i, ⟨fun hl => ?_, nofun⟩, ho.guards, fun j => ?_, herase, nofun⟩, ?_, fun j => ?_, fun j hj => ?_,
    hcalls.safe⟩
  · cases ho.locked.1 hl
  · change (s.setPromise i .granted).promises j = .granted ↔ _
    rw [promises_set]
    split
    · next he => exact ⟨fun _ => by rw [he], fun _ => rfl⟩
    · next he =>
      refine ⟨fun hh => ?_, fun hh => absurd (Owner.promise.inj hh).symm he⟩
      cases (ho.holds j).1 hh
  · change s.grants ++ [i] ++ s.handing.erase i ++ s.queue = List.range s.next
    rw [herase, ← hcalls.order, hd, List.append_nil]
  · change (s.setPromise i .granted).promises j = .absent ↔ s.next ≤ j
    rw [promises_set]
    split
    · next he =>
      subst he
      exact ⟨nofun, fun hle => by cases hpend.symm.trans ((hcalls.absent j).2 hle)⟩
    · exact hcalls.absent j
  · have hj : j ∈ s.queue := by
      rwa [herase, nil_append] at hj
    change (s.setPromise i .granted).promises j = _ ∨ _
    rw [promises_set, if_neg fun he : j = i => hnodup (he ▸ hj)]
    exact hcalls.pending j (mem_append_right _ hj)

theorem inv_step {m : Act} (hi : Inv s) (hc : s.Clean m) (h : s.step m = some s') : Inv s' := by
  cases m with
  | lock => exact inv_lock hi h
  | tryLock => exact inv_tryLock hi h
  | poll i => exact inv_poll hi h
  | take i => exact inv_take hi h
  | drop i => exact inv_drop hi h
  | release => exact inv_release hi h
  | resolve i => exact inv_resolve hi hc h
  | wake i =>
    obtain ⟨⟨o, ho⟩, hcalls⟩ := hi
    rw [step] at h
    split at h
    · cases h
      refine ⟨⟨o, ho.locked, ho.guards, ho.holds, ho.handing, ho.queue⟩, hcalls.order, hcalls.absent, hcalls.pending, ?_⟩
      change (s.faulted || decide (s.promises i = .dropped)) = false
      rw [hcalls.safe, decide_eq_false hc]
      rfl
    · cases h

open Libx.Core (Run replay exists_run_of_replay)

/-- While a release resolves and wakes only a waiter whose promise exists, the lock has one holder at a time, in the order
of the calls. -/
theorem fair_of_clean (h : Run step Clean {} s) : s.Fair :=
  (h.preserves (fun _ _ _ hi hc hs => inv_step hi hc hs) inv_init).isFair

/-- Three calls: the first is granted at once, the second when its guard goes, the third when the second promise is
dropped with the guard in it. -/
theorem fair_of_clean_three : ∃ s, Run step Clean {} s ∧ s.Fair ∧ s.grants = [0, 1, 2] ∧ s.locked = false := by
  have hreplay : replay step (fun s m => decide (s.Clean m)) (fun s => decide (s.grants = [0, 1, 2] ∧ s.locked = false)) {}
      [.lock, .lock, .tryLock, .poll 0, .take 0, .lock, .poll 1, .release, .resolve 1, .wake 1, .drop 1, .resolve 2, .wake 2,
        .poll 2, .take 2, .drop 2, .release] = true := by
    decide +kernel
  obtain ⟨s, hr, hp⟩ := exists_run_of_replay step Clean _ _ (fun _ _ => of_decide_eq_true) hreplay
  exact ⟨s, hr, fair_of_clean hr, of_decide_eq_true hp⟩

/-- The second promise is dropped while it waits; the release resolves its adapter all the same, and nobody has the lock
any more. -/
theorem not_fair_dropped : ¬∀ s, Run step (fun _ _ => True) {} s → s.Fair := by
  intro hall
  have hreplay : replay step (fun _ _ => true) (fun s => decide (s.faulted = true ∧ s.locked = true ∧ s.guards = 0)) {}
      [.lock, .lock, .poll 0, .take 0, .drop 1, .release, .resolve 1] = true := by
    decide +kernel
  obtain ⟨s, hr, hp⟩ := exists_run_of_replay step (fun _ _ => True) _ _ (fun _ _ _ => trivial) hreplay
  exact Bool.false_ne_true ((hall s hr).safe.symm.trans (of_decide_eq_true hp).1)

end Mutex

end Libx.Xpp
