import Mathlib

/-!
# Libx.Core.Lockstep — two machines on one input
-/

namespace Libx.Core

variable {σ τ μ : Type*} {step : σ → μ → σ} {step' : τ → μ → τ} {ok : σ → μ → Prop} {R : σ → τ → Prop}

/-- `ok` admits each input in the state it comes in. -/
def Along (step : σ → μ → σ) (ok : σ → μ → Prop) (s : σ) : List μ → Prop
  | [] => True
  | m :: ms => ok s m ∧ Along step ok (step s m) ms

def Along.decide (step : σ → μ → σ) (ok : σ → μ → Prop) [∀ s m, Decidable (ok s m)] :
    ∀ (s : σ) (ms : List μ), Decidable (Along step ok s ms)
  | _, [] => .isTrue trivial
  | s, m :: ms =>
    have := Along.decide step ok (step s m) ms
    inferInstanceAs (Decidable (ok s m ∧ Along step ok (step s m) ms))

instance (step : σ → μ → σ) (ok : σ → μ → Prop) [∀ s m, Decidable (ok s m)] (s : σ) (ms : List μ) :
    Decidable (Along step ok s ms) := Along.decide step ok s ms

/-- **Lockstep**: where a step keeps the relation exactly when it is admitted, so does every run. -/
theorem lockstep_iff (hstep : ∀ s t m, R s t → (R (step s m) (step' t m) ↔ ok s m)) {s : σ} {t : τ} (h0 : R s t)
    (ms : List μ) : (∀ us, us <+: ms → R (us.foldl step s) (us.foldl step' t)) ↔ Along step ok s ms := by
  induction ms generalizing s t with
  | nil =>
    refine iff_of_true (fun us hus => ?_) trivial
    rw [List.prefix_nil.1 hus]
    exact h0
  | cons m ms ih =>
    constructor
    · intro hall
      have hm := hall [m] (List.prefix_append [m] ms)
      exact ⟨(hstep s t m h0).1 hm, (ih hm).1 fun us hus => hall (m :: us) ((List.prefix_cons_inj m).2 hus)⟩
    · rintro ⟨hm, hrest⟩ us hus
      cases us with
      | nil => exact h0
      | cons u us =>
        obtain ⟨rfl, htail⟩ := List.cons_prefix_cons.1 hus
        exact (ih ((hstep s t u h0).2 hm)).2 hrest us htail

end Libx.Core
