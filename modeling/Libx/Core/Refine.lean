import Mathlib

/-!
# Libx.Core.Refine — operations with results, and what they are compared with
-/

namespace Libx.Core

universe u v w x

variable {σ : Type u} {τ : Type v} {μ : Type w} {ρ : Type x}

def exec (step : σ → μ → ρ × σ) (s : σ) : List μ → List ρ × σ
  | [] => ([], s)
  | m :: ms => ((step s m).1 :: (exec step (step s m).2 ms).1, (exec step (step s m).2 ms).2)

/-- `ok` admits each operation in the state it is done in. -/
def Admits (step : σ → μ → ρ × σ) (ok : σ → μ → Prop) (s : σ) : List μ → Prop
  | [] => True
  | m :: ms => ok s m ∧ Admits step ok (step s m).2 ms

def Admits.decide (step : σ → μ → ρ × σ) (ok : σ → μ → Prop) [∀ s m, Decidable (ok s m)] :
    ∀ (s : σ) (ms : List μ), Decidable (Admits step ok s ms)
  | _, [] => .isTrue trivial
  | s, m :: ms =>
    have := Admits.decide step ok (step s m).2 ms
    inferInstanceAs (Decidable (ok s m ∧ Admits step ok (step s m).2 ms))

instance (step : σ → μ → ρ × σ) (ok : σ → μ → Prop) [∀ s m, Decidable (ok s m)] (s : σ) (ms : List μ) :
    Decidable (Admits step ok s ms) := Admits.decide step ok s ms

/-- From `t` to `t'` by the operations `ms` with the results `rs`. -/
inductive Traces (spec : τ → μ → ρ → τ → Prop) : τ → List μ → List ρ → τ → Prop
  | nil (t : τ) : Traces spec t [] [] t
  | cons {t t' t'' : τ} {m : μ} {ms : List μ} {r : ρ} {rs : List ρ} :
      spec t m r t' → Traces spec t' ms rs t'' → Traces spec t (m :: ms) (r :: rs) t''

variable {step : σ → μ → ρ × σ} {ok : σ → μ → Prop} {spec : τ → μ → ρ → τ → Prop}

theorem Admits.preserves {I : σ → Prop} (hstep : ∀ s m, I s → ok s m → I (step s m).2) {s : σ} {ms : List μ}
    (h0 : I s) (h : Admits step ok s ms) : I (exec step s ms).2 := by
  induction ms generalizing s with
  | nil => exact h0
  | cons m ms ih => exact ih (hstep s m h0 h.1) h.2

theorem Admits.all (h : ∀ s m, ok s m) (s : σ) (ms : List μ) : Admits step ok s ms := by
  induction ms generalizing s with
  | nil => trivial
  | cons m ms ih => exact ⟨h s m, ih _⟩

/-- **Simulation**: where what `R` relates stays related, the operations have a trace with the same results. -/
theorem Traces.of_exec {R : σ → τ → Prop}
    (hstep : ∀ s t m, R s t → ok s m → ∃ t', spec t m (step s m).1 t' ∧ R (step s m).2 t')
    {s : σ} {t : τ} {ms : List μ} (h0 : R s t) (h : Admits step ok s ms) :
    ∃ t', Traces spec t ms (exec step s ms).1 t' ∧ R (exec step s ms).2 t' := by
  induction ms generalizing s t with
  | nil => exact ⟨t, .nil t, h0⟩
  | cons m ms ih =>
    obtain ⟨t₁, hspec, hrel⟩ := hstep s t m h0 h.1
    obtain ⟨t₂, htrace, hrel⟩ := ih hrel h.2
    exact ⟨t₂, .cons hspec htrace, hrel⟩

end Libx.Core
