import Mathlib

/-!
# Libx.Core.Unfold — what a partial step function produces until it stops

An iterator is a partial function that gives the next element and the iterator behind it.
-/

namespace Libx.Core

universe u v

variable {σ : Type u} {α : Type v}

/-- Iterating `next` from `s` gives the elements `xs` and then stops. -/
inductive Unfolds (next : σ → Option (α × σ)) : σ → List α → Prop
  | done {s : σ} : next s = none → Unfolds next s []
  | more {s t : σ} {x : α} {xs : List α} : next s = some (x, t) → Unfolds next t xs → Unfolds next s (x :: xs)

namespace Unfolds

variable {next : σ → Option (α × σ)} {s : σ} {xs ys : List α}

theorem forall_mem {I : σ → Prop} {p : α → Prop} (h : Unfolds next s xs) (h0 : I s)
    (hstep : ∀ s x t, I s → next s = some (x, t) → p x ∧ I t) : ∀ x ∈ xs, p x := by
  induction h with
  | done => exact fun _ hx => absurd hx List.not_mem_nil
  | more hs _ ih =>
    obtain ⟨hp, ht⟩ := hstep _ _ _ h0 hs
    intro y hy
    rcases List.mem_cons.mp hy with rfl | hy
    · exact hp
    · exact ih ht y hy

end Unfolds

end Libx.Core
