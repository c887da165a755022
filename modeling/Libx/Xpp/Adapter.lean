import Libx.Core.Run

/-!
# Libx.Xpp.Adapter — a promise that is resolved from outside

AdapterPromiseNode and its AtomicWaker (promise_node.h), one atomic step at a time: one thread polls, one resolves.
-/

namespace Libx.Xpp

open List Option

/-- Where the polling thread is: `poll` is called, has seen no value; `register_waker` holds the cell, has written it,
fires it for a `wake` that came meanwhile, fires the waker it could not store; `poll` loads the flag again, calls `wake`,
which holds the cell, has fired it. -/
inductive PollState (W : Type*)
  | idle
  | called (w : W)
  | checked (w : W)
  | storing (w : W)
  | stored (w : W)
  | selfWaking (w : W)
  | dropping (w : W)
  | registered (w : W)
  | rewaking (w : W)
  | firing (w : W)
  | releasing (w : W)
  deriving DecidableEq

/-- Where the resolving thread is: `resolve` is called, has set the flag; its `wake` holds the cell, has fired it. -/
inductive ResolveState
  | idle
  | storing
  | waking
  | firing
  | releasing
  | done
  deriving DecidableEq

/-- The node; then the number of wakes when the current `poll` began, the waker of the latest `poll` with that number if
it returned false, whether a `poll` returned true, the wakers that were woken, and whether `resolve` accessed the node
after that. -/
structure Adapter (W : Type*) where
  resolved : Bool := false
  bits : ℕ := 0
  cell : Option W := none
  poller : PollState W := .idle
  resolver : ResolveState := .idle
  began : ℕ := 0
  waits : Option (W × ℕ) := none
  ready : Bool := false
  woken : List W := []
  touched : Bool := false

namespace Adapter

/-- The bits of `m_state`. -/
def REGISTERING : ℕ := 0b01

def WAKING : ℕ := 0b10

/-- A call of `poll`, its next step, a call of `resolve`, its next step. -/
inductive Act (W : Type*)
  | poll (w : W)
  | poller
  | resolve
  | resolver
  deriving DecidableEq

variable {W : Type*}

/-- `poll` returns true. -/
def retTrue (s : Adapter W) : Adapter W := { s with poller := .idle, waits := none, ready := true }

/-- `poll` returns false. -/
def retFalse (s : Adapter W) (w : W) : Adapter W := { s with poller := .idle, waits := some (w, s.began) }

def fire (s : Adapter W) : Adapter W := { s with woken := s.woken ++ s.cell.toList }

/-- The next step of `poll`. -/
def stepPoller (s : Adapter W) : Option (Adapter W) :=
  match s.poller with
  | .idle => none
  | .called w => some (if s.resolved then s.retTrue else { s with poller := .checked w })
  | .checked w =>
    some (if s.bits = 0 then { s with bits := REGISTERING, poller := .storing w }
      else if s.bits = WAKING then { s with poller := .dropping w } else { s with poller := .registered w })
  | .storing w => some { s with cell := some w, poller := .stored w }
  | .stored w =>
    some { s with bits := 0, poller := if s.bits = REGISTERING ||| WAKING then .selfWaking w else .registered w }
  | .selfWaking w => some { s.fire with poller := .registered w }
  | .dropping w => some { s with woken := s.woken ++ [w], poller := .registered w }
  | .registered w => some (if s.resolved then { s with poller := .rewaking w } else s.retFalse w)
  | .rewaking w =>
    some (if s.bits = 0 then { s with bits := WAKING, poller := .firing w }
      else { s with bits := s.bits ||| WAKING }.retTrue)
  | .firing w => some { s.fire with poller := .releasing w }
  | .releasing _ => some { s with bits := 0 }.retTrue

/-- `resolve` accesses the node. -/
def touch (s : Adapter W) : Adapter W := { s with touched := s.touched || s.ready }

/-- The next step of `resolve`. -/
def stepResolver (s : Adapter W) : Option (Adapter W) :=
  match s.resolver with
  | .idle | .done => none
  | .storing => some { s.touch with resolved := true, resolver := .waking }
  | .waking =>
    some { s.touch with bits := s.bits ||| WAKING, resolver := if s.bits = 0 then .firing else .done }
  | .firing => some { s.touch.fire with resolver := .releasing }
  | .releasing => some { s.touch with bits := 0, resolver := .done }

/-- One atomic step; nobody polls a node that was ready, and it is resolved once. -/
def step (s : Adapter W) : Act W → Option (Adapter W)
  | .poll w =>
    match s.poller with
    | .idle => if s.ready then none else some { s with poller := .called w, began := s.woken.length }
    | _ => none
  | .poller => s.stepPoller
  | .resolve => if s.resolver = .idle then some { s.touch with resolver := .storing } else none
  | .resolver => s.stepResolver

/-! ### The property -/

/-- The waiter is woken once and the node is left alone afterwards. -/
structure Woken (s : Adapter W) : Prop where
  woke : s.resolver = .done → ∀ w n, s.waits = some (w, n) → w ∈ s.woken.drop n
  apart : ∀ w, ¬(s.poller = .storing w ∧ s.resolver = .firing)
  once : s.woken.Nodup
  untouched : s.touched = false

/-- The polling thread does not get in the way of `resolve`'s `wake`: it is behind its last access to the cell, or in
front of the first; or it is about to wake the only waker there is. -/
def Aside (s : Adapter W) : Prop :=
  match s.poller with
  | .idle | .called _ | .checked _ => True
  | .firing _ => s.waits = none
  | .releasing w => ∀ x ∈ s.waits, x.1 = w
  | _ => False

/-- `resolve` does not meet a `poll`: none returns true before it is done, `wake` finds the polling thread aside, and no
`poll` registers beside a waker that `wake` holds, or again the one that it has woken. -/
def Clean (s : Adapter W) : Act W → Prop
  | .poller =>
    match s.poller with
    | .called _ => s.resolved = true → s.resolver = .done
    | .checked w => (s.bits = WAKING → s.cell = none) ∧ (s.resolver = .done → s.cell ≠ some w)
    | .rewaking _ => s.bits = 0
    | .releasing _ => s.resolver = .done
    | _ => True
  | .resolver => s.resolver = .waking → s.Aside
  | _ => True

/-! ### The invariant -/

/-- The latest `poll` that returned false has left its waker in the cell. -/
def Filed (s : Adapter W) : Prop := ∀ x ∈ s.waits, s.cell = some x.1

/-- Nothing is woken yet, and the polling thread has not seen the flag. -/
def Before (s : Adapter W) : PollState W → Prop
  | .idle | .called _ | .checked _ => s.woken = [] ∧ s.began = 0 ∧ s.bits = 0 ∧ s.Filed
  | .storing _ => s.woken = [] ∧ s.began = 0 ∧ s.bits = REGISTERING ∧ s.Filed
  | .stored w => s.woken = [] ∧ s.began = 0 ∧ s.bits = REGISTERING ∧ s.cell = some w
  | .registered w => s.woken = [] ∧ s.began = 0 ∧ s.bits = 0 ∧ s.cell = some w
  | _ => False

/-- The polling thread has seen the flag, and `resolve` has not called `wake`. -/
def Ahead (s : Adapter W) : PollState W → Prop
  | .rewaking w => s.woken = [] ∧ s.bits = 0 ∧ s.cell = some w
  | .firing w => s.woken = [] ∧ s.bits = WAKING ∧ s.cell = some w
  | .releasing w => s.woken = [w] ∧ s.bits = WAKING ∧ s.cell = some w
  | _ => False

/-- `wake` holds the cell. -/
def During (s : Adapter W) (fired : List W) : PollState W → Prop
  | .idle | .called _ | .checked _ => s.woken = fired ∧ s.Filed
  | .dropping _ => s.woken = [] ∧ s.cell = none ∧ s.waits = none
  | .registered w | .rewaking w => s.woken = [w] ∧ s.cell = none ∧ s.waits = none
  | _ => False

/-- `resolve` has returned. -/
def After (s : Adapter W) : PollState W → Prop
  | .idle | .called _ | .releasing _ => True
  | .checked _ => s.bits = 0 ∧ s.woken = s.cell.toList
  | .storing w => s.bits = REGISTERING ∧ w ∉ s.woken
  | .stored w => s.bits = REGISTERING ∧ s.cell = some w ∧ w ∉ s.woken
  | .dropping _ => s.bits = 0 ∧ s.woken = [] ∧ s.cell = none
  | .registered _ | .rewaking _ => s.bits = 0 ∧ ∀ x ∈ s.cell, x ∉ s.woken
  | .firing _ => s.bits = WAKING ∧ ∀ x ∈ s.cell, x ∉ s.woken
  | .selfWaking _ => False

/-- What holds, by where `resolve` is. -/
def Place (s : Adapter W) (p : PollState W) : ResolveState → Prop
  | .idle | .storing => s.resolved = false ∧ s.ready = false ∧ s.Before p
  | .waking => s.resolved = true ∧ s.ready = false ∧ (s.Before p ∨ s.Ahead p)
  | .firing => s.resolved = true ∧ s.ready = false ∧ s.bits = WAKING ∧ s.During [] p
  | .releasing => s.resolved = true ∧ s.ready = false ∧ s.bits = WAKING ∧ s.During s.cell.toList p
  | .done => s.resolved = true ∧ s.woken.Nodup ∧ (∀ x ∈ s.waits, x.1 ∈ s.woken) ∧ s.After p

structure Inv (s : Adapter W) : Prop where
  place : s.Place s.poller s.resolver
  start : ∀ x ∈ s.waits, x.2 = 0
  untouched : s.touched = false

variable {s s' : Adapter W} {w : W}

theorem Filed.waits_none (h : s.Filed) (hn : s.cell = none) : s.waits = none := by
  cases hw : s.waits with
  | none => rfl
  | some x => exact absurd ((h x hw).symm.trans hn) (by simp)

variable {p : PollState W}

theorem Before.nodup (h : s.Before p) : s.woken.Nodup := by
  cases p with
  | selfWaking w | dropping w | rewaking w | firing w | releasing w => exact h.elim
  | _ => exact h.1 ▸ nodup_nil

theorem Ahead.nodup (h : s.Ahead p) : s.woken.Nodup := by
  cases p with
  | rewaking w | firing w => exact h.1 ▸ nodup_nil
  | releasing w => exact h.1 ▸ nodup_singleton w
  | _ => exact h.elim

theorem During.nodup {fired : List W} (h : s.During fired p) (hf : fired.Nodup) : s.woken.Nodup := by
  cases p with
  | idle | called w | checked w => exact h.1 ▸ hf
  | dropping w => exact h.1 ▸ nodup_nil
  | registered w | rewaking w => exact h.1 ▸ nodup_singleton w
  | _ => exact h.elim

theorem Place.nodup {r : ResolveState} (h : s.Place p r) : s.woken.Nodup := by
  cases r with
  | idle | storing => exact h.2.2.nodup
  | waking => exact h.2.2.elim Before.nodup Ahead.nodup
  | firing => exact h.2.2.2.nodup nodup_nil
  | releasing => exact h.2.2.2.nodup (toList_nodup _)
  | done => exact h.2.1

theorem inv_init : Inv ({} : Adapter W) :=
  ⟨⟨rfl, rfl, rfl, rfl, rfl, (fun _ hx => nomatch hx)⟩, (fun _ hx => nomatch hx), rfl⟩

theorem inv_of_place {r : ResolveState} (hr : s.resolver = r) (place : s.Place s.poller r) (start : ∀ x ∈ s.waits, x.2 = 0)
    (untouched : s.touched = false) : Inv s := ⟨hr ▸ place, start, untouched⟩

theorem inv_poll (hi : Inv s) (h : s.step (.poll w) = some s') : Inv s' := by
  obtain ⟨place, start, untouched⟩ := hi
  rw [step] at h
  split at h
  case h_2 => cases h
  case h_1 hp =>
  split at h
  case isTrue => cases h
  case isFalse hrd =>
  cases h
  rw [hp] at place
  refine ⟨?_, start, untouched⟩
  change Place _ _ s.resolver
  cases hr : s.resolver with
  | idle | storing =>
    rw [hr] at place
    obtain ⟨h1, h2, h3, h4, h5⟩ := place
    exact ⟨h1, h2, h3, by rw [h3]; rfl, h5⟩
  | waking =>
    rw [hr] at place
    obtain ⟨h1, h2, ⟨h3, h4, h5⟩ | h3⟩ := place
    · exact ⟨h1, h2, .inl ⟨h3, by rw [h3]; rfl, h5⟩⟩
    · exact h3.elim
  | firing | releasing | done =>
    rw [hr] at place
    exact place

theorem inv_called (hi : Inv s) (hp : s.poller = .called w) (hc : s.Clean .poller) (h : s.stepPoller = some s') : Inv s' := by
  obtain ⟨place, start, untouched⟩ := hi
  rw [stepPoller] at h
  rw [Clean] at hc
  rw [hp] at h hc place
  rw [some.injEq] at h
  split at h
  · next hres =>
    subst h
    have hdone := hc hres
    rw [hdone] at place
    obtain ⟨h1, h2, h3, h4⟩ := place
    exact inv_of_place hdone ⟨h1, h2, (fun _ hx => nomatch hx), trivial⟩ (fun _ hx => nomatch hx) untouched
  · next hres =>
    subst h
    refine ⟨?_, start, untouched⟩
    change Place _ _ s.resolver
    cases hr : s.resolver with
    | idle | storing =>
      rw [hr] at place
      exact place
    | waking | firing | releasing | done =>
      rw [hr] at place
      exact absurd place.1 hres

theorem inv_checked (hi : Inv s) (hp : s.poller = .checked w) (hc : s.Clean .poller) (h : s.stepPoller = some s') : Inv s' := by
  obtain ⟨place, start, untouched⟩ := hi
  rw [stepPoller] at h
  rw [Clean] at hc
  rw [hp] at h hc place
  rw [some.injEq] at h
  cases hr : s.resolver with
  | idle | storing =>
    rw [hr] at place
    obtain ⟨h1, h2, h3, h4, h5, h6⟩ := place
    rw [if_pos h5] at h
    subst h
    exact inv_of_place hr ⟨h1, h2, h3, h4, rfl, h6⟩ start untouched
  | waking =>
    rw [hr] at place
    obtain ⟨h1, h2, ⟨h3, h4, h5, h6⟩ | h3⟩ := place
    · rw [if_pos h5] at h
      subst h
      exact inv_of_place hr ⟨h1, h2, .inl ⟨h3, h4, rfl, h6⟩⟩ start untouched
    · exact h3.elim
  | firing =>
    rw [hr] at place
    obtain ⟨h1, h2, h3, h4, h5⟩ := place
    rw [if_neg (by rw [h3]; decide), if_pos h3] at h
    subst h
    exact inv_of_place hr ⟨h1, h2, h3, h4, hc.1 h3, h5.waits_none (hc.1 h3)⟩ start untouched
  | releasing =>
    rw [hr] at place
    obtain ⟨h1, h2, h3, h4, h5⟩ := place
    rw [if_neg (by rw [h3]; decide), if_pos h3] at h
    subst h
    exact inv_of_place hr ⟨h1, h2, h3, by rw [h4, hc.1 h3]; rfl, hc.1 h3, h5.waits_none (hc.1 h3)⟩ start untouched
  | done =>
    rw [hr] at place
    obtain ⟨h1, h2, h3, h4, h5⟩ := place
    rw [if_pos h4] at h
    subst h
    refine inv_of_place hr ⟨h1, h2, h3, rfl, fun hw => hc.2 hr ?_⟩ start untouched
    exact mem_toList.1 (h5 ▸ hw)

theorem inv_storing (hi : Inv s) (hp : s.poller = .storing w) (h : s.stepPoller = some s') : Inv s' := by
  obtain ⟨place, start, untouched⟩ := hi
  rw [stepPoller] at h
  rw [hp] at h place
  cases h
  refine ⟨?_, start, untouched⟩
  change Place _ _ s.resolver
  cases hr : s.resolver with
  | idle | storing =>
    rw [hr] at place
    obtain ⟨h1, h2, h3, h4, h5, -⟩ := place
    exact ⟨h1, h2, h3, h4, h5, rfl⟩
  | waking =>
    rw [hr] at place
    obtain ⟨h1, h2, ⟨h3, h4, h5, -⟩ | h3⟩ := place
    · exact ⟨h1, h2, .inl ⟨h3, h4, h5, rfl⟩⟩
    · exact h3.elim
  | firing | releasing =>
    rw [hr] at place
    exact place.2.2.2.elim
  | done =>
    rw [hr] at place
    obtain ⟨h1, h2, h3, h4, h5⟩ := place
    exact ⟨h1, h2, h3, h4, rfl, h5⟩

theorem inv_stored (hi : Inv s) (hp : s.poller = .stored w) (h : s.stepPoller = some s') : Inv s' := by
  obtain ⟨place, start, untouched⟩ := hi
  rw [stepPoller] at h
  rw [hp] at h place
  rw [some.injEq] at h
  cases hr : s.resolver with
  | idle | storing =>
    rw [hr] at place
    obtain ⟨h1, h2, h3, h4, h5, h6⟩ := place
    rw [if_neg (by rw [h5]; decide)] at h
    subst h
    exact inv_of_place hr ⟨h1, h2, h3, h4, rfl, h6⟩ start untouched
  | waking =>
    rw [hr] at place
    obtain ⟨h1, h2, ⟨h3, h4, h5, h6⟩ | h3⟩ := place
    · rw [if_neg (by rw [h5]; decide)] at h
      subst h
      exact inv_of_place hr ⟨h1, h2, .inl ⟨h3, h4, rfl, h6⟩⟩ start untouched
    · exact h3.elim
  | firing | releasing =>
    rw [hr] at place
    exact place.2.2.2.elim
  | done =>
    rw [hr] at place
    obtain ⟨h1, h2, h3, h4, h5, h6⟩ := place
    rw [if_neg (by rw [h4]; decide)] at h
    subst h
    refine inv_of_place hr ⟨h1, h2, h3, rfl, fun x hx => ?_⟩ start untouched
    cases mem_unique h5 hx
    exact h6

theorem not_selfWaking (hi : Inv s) (hp : s.poller = .selfWaking w) : False := by
  have place := hi.place
  rw [hp] at place
  cases hr : s.resolver with
  | idle | storing =>
    rw [hr] at place
    exact place.2.2
  | waking =>
    rw [hr] at place
    exact place.2.2.elim id id
  | firing | releasing | done =>
    rw [hr] at place
    exact place.2.2.2

theorem inv_dropping (hi : Inv s) (hp : s.poller = .dropping w) (h : s.stepPoller = some s') : Inv s' := by
  obtain ⟨place, start, untouched⟩ := hi
  rw [stepPoller] at h
  rw [hp] at h place
  cases h
  refine ⟨?_, start, untouched⟩
  change Place _ _ s.resolver
  cases hr : s.resolver with
  | idle | storing =>
    rw [hr] at place
    exact place.2.2.elim
  | waking =>
    rw [hr] at place
    exact (place.2.2.elim id id).elim
  | firing | releasing =>
    rw [hr] at place
    obtain ⟨h1, h2, h3, h4, h5, h6⟩ := place
    exact ⟨h1, h2, h3, by rw [h4]; rfl, h5, h6⟩
  | done =>
    rw [hr] at place
    obtain ⟨h1, h2, h3, h4, h5, h6⟩ := place
    refine ⟨h1, ?_, fun x hx => mem_append_left _ (h3 x hx), h4, fun x hx => ?_⟩
    · rw [h5]
      exact nodup_singleton w
    · rw [h6] at hx
      cases hx

theorem inv_registered (hi : Inv s) (hp : s.poller = .registered w) (h : s.stepPoller = some s') : Inv s' := by
  obtain ⟨place, start, untouched⟩ := hi
  rw [stepPoller] at h
  rw [hp] at h place
  rw [some.injEq] at h
  cases hr : s.resolver with
  | idle | storing =>
    rw [hr] at place
    obtain ⟨h1, h2, h3, h4, h5, h6⟩ := place
    rw [if_neg (by rw [h1]; exact Bool.false_ne_true)] at h
    subst h
    refine ⟨?_, fun x hx => ?_, untouched⟩
    · change Place _ _ s.resolver
      rw [hr]
      refine ⟨h1, h2, h3, h4, h5, fun x hx => ?_⟩
      cases hx
      exact h6
    · cases hx
      exact h4
  | waking =>
    rw [hr] at place
    obtain ⟨h1, h2, ⟨h3, h4, h5, h6⟩ | h3⟩ := place
    · rw [if_pos h1] at h
      subst h
      exact inv_of_place hr ⟨h1, h2, .inr ⟨h3, h5, h6⟩⟩ start untouched
    · exact h3.elim
  | firing | releasing | done =>
    rw [hr] at place
    rw [if_pos place.1] at h
    subst h
    exact inv_of_place hr place start untouched

theorem inv_rewaking (hi : Inv s) (hp : s.poller = .rewaking w) (hc : s.Clean .poller) (h : s.stepPoller = some s') : Inv s' := by
  obtain ⟨place, start, untouched⟩ := hi
  rw [stepPoller] at h
  rw [Clean] at hc
  rw [hp] at h hc place
  rw [some.injEq, if_pos hc] at h
  subst h
  refine ⟨?_, start, untouched⟩
  change Place _ _ s.resolver
  cases hr : s.resolver with
  | idle | storing =>
    rw [hr] at place
    exact place.2.2.elim
  | waking =>
    rw [hr] at place
    obtain ⟨h1, h2, h3 | ⟨h3, h4, h5⟩⟩ := place
    · exact h3.elim
    · exact ⟨h1, h2, .inr ⟨h3, rfl, h5⟩⟩
  | firing | releasing =>
    rw [hr] at place
    exact absurd (hc.symm.trans place.2.2.1) (by decide)
  | done =>
    rw [hr] at place
    obtain ⟨h1, h2, h3, h4, h5⟩ := place
    exact ⟨h1, h2, h3, rfl, h5⟩

theorem inv_firing (hi : Inv s) (hp : s.poller = .firing w) (h : s.stepPoller = some s') : Inv s' := by
  obtain ⟨place, start, untouched⟩ := hi
  rw [stepPoller] at h
  rw [hp] at h place
  cases h
  refine ⟨?_, start, untouched⟩
  change Place _ _ s.resolver
  cases hr : s.resolver with
  | idle | storing =>
    rw [hr] at place
    exact place.2.2.elim
  | waking =>
    rw [hr] at place
    obtain ⟨h1, h2, h3 | ⟨h3, h4, h5⟩⟩ := place
    · exact h3.elim
    · refine ⟨h1, h2, .inr ⟨?_, h4, h5⟩⟩
      change s.woken ++ s.cell.toList = _
      rw [h3, h5]
      rfl
  | firing | releasing =>
    rw [hr] at place
    exact place.2.2.2.elim
  | done =>
    rw [hr] at place
    obtain ⟨h1, h2, h3, h4, h5⟩ := place
    refine ⟨h1, ?_, fun x hx => mem_append_left _ (h3 x hx), trivial⟩
    refine nodup_append.2 ⟨h2, toList_nodup _, fun x hx y hy hxy => ?_⟩
    exact h5 y (mem_toList.1 hy) (hxy ▸ hx)

theorem inv_releasing (hi : Inv s) (hp : s.poller = .releasing w) (hc : s.Clean .poller) (h : s.stepPoller = some s') : Inv s' := by
  obtain ⟨place, start, untouched⟩ := hi
  rw [stepPoller] at h
  rw [Clean] at hc
  rw [hp] at h hc place
  cases h
  refine ⟨?_, (fun _ hx => nomatch hx), untouched⟩
  change Place _ _ s.resolver
  have hdone : s.resolver = .done := hc
  rw [hdone] at place ⊢
  obtain ⟨h1, h2, h3, h4⟩ := place
  exact ⟨h1, h2, (fun _ hx => nomatch hx), trivial⟩

theorem inv_stepPoller (hi : Inv s) (hc : s.Clean .poller) (h : s.stepPoller = some s') : Inv s' := by
  cases hp : s.poller with
  | idle =>
    rw [stepPoller, hp] at h
    cases h
  | called w => exact inv_called hi hp hc h
  | checked w => exact inv_checked hi hp hc h
  | storing w => exact inv_storing hi hp h
  | stored w => exact inv_stored hi hp h
  | selfWaking w => exact (not_selfWaking hi hp).elim
  | dropping w => exact inv_dropping hi hp h
  | registered w => exact inv_registered hi hp h
  | rewaking w => exact inv_rewaking hi hp hc h
  | firing w => exact inv_firing hi hp h
  | releasing w => exact inv_releasing hi hp hc h

theorem touch_of_not_ready (h : s.ready = false) (ht : s.touched = false) : (s.touched || s.ready) = false := by
  rw [h, ht]
  rfl

theorem inv_waking (hi : Inv s) (hr : s.resolver = .waking) (hc : s.Clean .resolver) (h : s.stepResolver = some s') :
    Inv s' := by
  obtain ⟨place, start, untouched⟩ := hi
  rw [stepResolver] at h
  have haside := hc hr
  rw [Aside] at haside
  rw [hr] at h place
  rw [some.injEq] at h
  obtain ⟨h1, h2, h3⟩ := place
  have ht := touch_of_not_ready h2 untouched
  cases hp : s.poller with
  | idle | called w | checked w =>
    rw [hp] at h3
    rcases h3 with ⟨h3, h4, h5, h6⟩ | h3
    · rw [if_pos h5] at h
      subst h
      refine ⟨?_, start, ht⟩
      change Place _ s.poller _
      rw [hp]
      exact ⟨h1, h2, by rw [h5]; rfl, h3, h6⟩
    · exact h3.elim
  | firing w =>
    rw [hp] at h3 haside
    rcases h3 with h3 | ⟨h3, h4, h5⟩
    · exact h3.elim
    · rw [if_neg (by rw [h4]; decide)] at h
      subst h
      refine ⟨?_, start, ht⟩
      change Place _ s.poller _
      rw [hp]
      have hnone : s.waits = none := haside
      refine ⟨h1, h3 ▸ nodup_nil, fun x hx => ?_, by rw [h4]; rfl, fun x _ hx => ?_⟩
      · cases hnone.symm.trans hx
      · exact not_mem_nil (h3 ▸ hx)
  | releasing w =>
    rw [hp] at h3 haside
    rcases h3 with h3 | ⟨h3, h4, h5⟩
    · exact h3.elim
    · rw [if_neg (by rw [h4]; decide)] at h
      subst h
      refine ⟨?_, start, ht⟩
      change Place _ s.poller _
      rw [hp]
      have hmem : ∀ x ∈ s.waits, x.1 ∈ s.woken := fun x hx => by
        rw [h3, haside x hx]
        exact mem_singleton_self w
      exact ⟨h1, h3 ▸ nodup_singleton w, hmem, trivial⟩
  | storing w | stored w | selfWaking w | dropping w | registered w | rewaking w =>
    rw [hp] at haside
    exact haside.elim

theorem inv_wake (hi : Inv s) (hr : s.resolver = .firing) (h : s.stepResolver = some s') :
    Inv s' := by
  obtain ⟨place, start, untouched⟩ := hi
  rw [stepResolver] at h
  rw [hr] at h place
  cases h
  obtain ⟨h1, h2, h3, h4⟩ := place
  refine ⟨?_, start, touch_of_not_ready h2 untouched⟩
  change Place _ s.poller _
  cases hp : s.poller with
  | idle | called w | checked w =>
    rw [hp] at h4
    refine ⟨h1, h2, h3, ?_, h4.2⟩
    change s.woken ++ s.cell.toList = _
    rw [h4.1]
    rfl
  | dropping w | registered w | rewaking w =>
    rw [hp] at h4
    obtain ⟨h4, h5, h6⟩ := h4
    refine ⟨h1, h2, h3, ?_, h5, h6⟩
    change s.woken ++ s.cell.toList = _
    rw [h4, h5]
    rfl
  | storing w | stored w | selfWaking w | firing w | releasing w =>
    rw [hp] at h4
    exact h4.elim

theorem inv_release (hi : Inv s) (hr : s.resolver = .releasing) (h : s.stepResolver = some s') :
    Inv s' := by
  obtain ⟨place, start, untouched⟩ := hi
  rw [stepResolver] at h
  rw [hr] at h place
  cases h
  obtain ⟨h1, h2, h3, h4⟩ := place
  refine ⟨?_, start, touch_of_not_ready h2 untouched⟩
  change Place _ s.poller _
  have hnd : s.woken.Nodup := h4.nodup (toList_nodup _)
  cases hp : s.poller with
  | idle | called w | checked w =>
    rw [hp] at h4
    obtain ⟨h4, h5⟩ := h4
    have hmem : ∀ x ∈ s.waits, x.1 ∈ s.woken := fun x hx => by
      rw [h4, h5 x hx]
      exact mem_singleton_self _
    first
      | exact ⟨h1, hnd, hmem, trivial⟩
      | exact ⟨h1, hnd, hmem, rfl, h4⟩
  | dropping w =>
    rw [hp] at h4
    obtain ⟨h4, h5, h6⟩ := h4
    exact ⟨h1, hnd, fun x hx => absurd (h6.symm.trans hx) (by simp), rfl, h4, h5⟩
  | registered w | rewaking w =>
    rw [hp] at h4
    obtain ⟨h4, h5, h6⟩ := h4
    exact ⟨h1, hnd, fun x hx => absurd (h6.symm.trans hx) (by simp), rfl, fun x hx => absurd (h5.symm.trans hx) (by simp)⟩
  | storing w | stored w | selfWaking w | firing w | releasing w =>
    rw [hp] at h4
    exact h4.elim

theorem inv_stepResolver (hi : Inv s) (hc : s.Clean .resolver) (h : s.stepResolver = some s') : Inv s' := by
  cases hr : s.resolver with
  | idle | done =>
    rw [stepResolver, hr] at h
    cases h
  | storing =>
    obtain ⟨place, start, untouched⟩ := hi
    rw [stepResolver, hr] at h
    rw [hr] at place
    cases h
    obtain ⟨-, h2, h3⟩ := place
    exact ⟨⟨rfl, h2, .inl h3⟩, start, touch_of_not_ready h2 untouched⟩
  | waking => exact inv_waking hi hr hc h
  | firing => exact inv_wake hi hr h
  | releasing => exact inv_release hi hr h

theorem inv_step {m : Act W} (hi : Inv s) (hc : s.Clean m) (h : s.step m = some s') : Inv s' := by
  cases m with
  | poll w => exact inv_poll hi h
  | poller => exact inv_stepPoller hi hc h
  | resolve =>
    rw [step] at h
    split at h
    · next hr =>
      cases h
      obtain ⟨place, start, untouched⟩ := hi
      rw [hr] at place
      exact ⟨place, start, touch_of_not_ready place.2.1 untouched⟩
    · cases h
  | resolver => exact inv_stepResolver hi hc h

theorem Inv.isWoken (hi : Inv s) : s.Woken where
  woke hr w n hw := by
    have place := hi.place
    rw [hr] at place
    have hn : n = 0 := hi.start _ hw
    rw [hn, drop_zero]
    exact place.2.2.1 _ hw
  apart w h := by
    have place := hi.place
    rw [h.1, h.2] at place
    exact place.2.2.2
  once := hi.place.nodup
  untouched := hi.untouched

open Libx.Core (Run replay exists_run_of_replay)

/-- While `resolve` does not meet a `poll`, the waiter is woken once, and the node is not touched after a `poll` has
returned true. -/
theorem woken_of_clean (h : Run step Clean ({} : Adapter W) s) : s.Woken :=
  (h.preserves (fun _ _ _ hi hc hs => inv_step hi hc hs) inv_init).isWoken

instance [DecidableEq W] (s : Adapter W) : Decidable s.Aside :=
  match s with
  | { poller := .idle, .. } | { poller := .called _, .. } | { poller := .checked _, .. } => isTrue trivial
  | { poller := .firing _, waits := w, .. } => inferInstanceAs (Decidable (w = none))
  | { poller := .releasing w, waits := x, .. } => inferInstanceAs (Decidable (∀ y ∈ x, y.1 = w))
  | { poller := .storing _, .. } | { poller := .stored _, .. } | { poller := .selfWaking _, .. }
  | { poller := .dropping _, .. } | { poller := .registered _, .. } | { poller := .rewaking _, .. } => isFalse id

instance [DecidableEq W] (s : Adapter W) : (m : Act W) → Decidable (s.Clean m)
  | .poll _ | .resolve => isTrue trivial
  | .resolver => inferInstanceAs (Decidable (s.resolver = .waking → s.Aside))
  | .poller =>
    match s with
    | { poller := .called _, resolved := f, resolver := r, .. } => inferInstanceAs (Decidable (f = true → r = .done))
    | { poller := .checked w, bits := b, cell := c, resolver := r, .. } =>
      inferInstanceAs (Decidable ((b = WAKING → c = none) ∧ (r = .done → c ≠ some w)))
    | { poller := .rewaking _, bits := b, .. } => inferInstanceAs (Decidable (b = 0))
    | { poller := .releasing _, resolver := r, .. } => inferInstanceAs (Decidable (r = .done))
    | { poller := .idle, .. } | { poller := .storing _, .. } | { poller := .stored _, .. }
    | { poller := .selfWaking _, .. } | { poller := .dropping _, .. } | { poller := .registered _, .. }
    | { poller := .firing _, .. } => isTrue trivial

/-- A first `poll` waits; the second overlaps `resolve`, whose `wake` comes between its two looks at the flag. -/
theorem woken_of_clean_two : ∃ s : Adapter ℕ, Run step Clean {} s ∧ s.Woken ∧ s.woken = [1, 2] ∧ s.ready = true := by
  have hreplay : replay step (fun s m => decide (s.Clean m)) (fun s : Adapter ℕ => decide (s.woken = [1, 2] ∧ s.ready = true))
      {} [.poll 1, .poller, .poller, .poller, .poller, .poller, .poll 2, .poller, .resolve, .resolver, .resolver, .resolver,
        .resolver, .poller, .poller, .poller, .poller, .poller, .poller, .poller] = true := by
    decide +kernel
  obtain ⟨s, hr, hp⟩ := exists_run_of_replay step Clean _ _ (fun _ _ => of_decide_eq_true) hreplay
  exact ⟨s, hr, woken_of_clean hr, of_decide_eq_true hp⟩

/-- The flag is set between the two looks of a `poll`: both sides wake the waiter, `resolve` after `poll` has returned
true. -/
theorem not_woken_once : ¬∀ s : Adapter ℕ, Run step (fun _ _ => True) {} s → s.Woken := by
  intro hall
  have hreplay : replay step (fun _ _ => true) (fun s : Adapter ℕ => decide (s.woken = [1, 1] ∧ s.touched = true)) {}
      [.poll 1, .poller, .poller, .poller, .poller, .resolve, .resolver, .poller, .poller, .poller, .poller, .resolver,
        .resolver] = true := by
    decide +kernel
  obtain ⟨s, hr, hp⟩ := exists_run_of_replay step (fun _ _ => True) _ _ (fun _ _ _ => trivial) hreplay
  have hw := of_decide_eq_true hp
  exact Bool.false_ne_true ((hall s hr).untouched.symm.trans hw.2)

end Adapter

end Libx.Xpp
