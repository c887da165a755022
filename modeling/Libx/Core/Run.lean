import Mathlib

/-!
# Libx.Core.Run — finite runs of a partial, labelled step function

A system is a partial function `step : σ → μ → Option σ`.  A run is taken under a condition
`ok : σ → μ → Prop` on the state before a step and the step's label: the environment's contract,
together with whatever a result asks of the steps of the runs it is about.
-/

namespace Libx.Core

universe u v

variable {σ : Type u} {μ : Type v}

/-- `t` is reached from `s` by finitely many steps, each on a label that `ok` admits in the state
it is taken in. -/
inductive Run (step : σ → μ → Option σ) (ok : σ → μ → Prop) (s : σ) : σ → Prop
  | refl : Run step ok s s
  | tail {t u : σ} {m : μ} : Run step ok s t → ok t m → step t m = some u → Run step ok s u

namespace Run

variable {step : σ → μ → Option σ} {ok ok' : σ → μ → Prop} {s t u : σ} {m : μ}

theorem single (h : ok s m) (hs : step s m = some t) : Run step ok s t :=
  .tail .refl h hs

theorem trans (h₁ : Run step ok s t) (h₂ : Run step ok t u) : Run step ok s u := by
  induction h₂ with
  | refl => exact h₁
  | tail _ hok hs ih => exact .tail ih hok hs

theorem head (h : ok s m) (hs : step s m = some t) (h₂ : Run step ok t u) : Run step ok s u :=
  (single h hs).trans h₂

theorem mono (hsub : ∀ s m, ok s m → ok' s m) (h : Run step ok s t) : Run step ok' s t := by
  induction h with
  | refl => exact .refl
  | tail _ hok hs ih => exact .tail ih (hsub _ _ hok) hs

/-- **Invariant rule**: what every admitted step preserves, every run preserves. -/
theorem preserves {I : σ → Prop} (hstep : ∀ s m t, I s → ok s m → step s m = some t → I t)
    (h : Run step ok s t) (h0 : I s) : I t := by
  induction h with
  | refl => exact h0
  | tail _ hok hs ih => exact hstep _ _ _ ih hok hs

end Run

/-! ### Runs from computed labels -/

/-- Follow the labels `ms` from `s`, checking `okb` before every step and `p` at the end. -/
def replay (step : σ → μ → Option σ) (okb : σ → μ → Bool) (p : σ → Bool) : σ → List μ → Bool
  | s, [] => p s
  | s, m :: ms => okb s m && match step s m with
    | none => false
    | some t => replay step okb p t ms

theorem exists_run_of_replay (step : σ → μ → Option σ) (ok : σ → μ → Prop) (okb : σ → μ → Bool)
    (p : σ → Bool) (hok : ∀ s m, okb s m = true → ok s m) :
    ∀ {s : σ} {ms : List μ}, replay step okb p s ms = true → ∃ t, Run step ok s t ∧ p t = true
  | s, [], h => ⟨s, .refl, h⟩
  | s, m :: ms, h => by
    rw [replay, Bool.and_eq_true] at h
    obtain ⟨h1, h2⟩ := h
    cases hs : step s m with
    | none => rw [hs] at h2; exact absurd h2 (by simp)
    | some t =>
      rw [hs] at h2
      obtain ⟨u, hu, hp⟩ := exists_run_of_replay step ok okb p hok h2
      exact ⟨u, .head (hok s m h1) hs hu, hp⟩

end Libx.Core
