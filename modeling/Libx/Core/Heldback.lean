import Mathlib

/-!
# Libx.Core.Heldback — input of which the end is held back

Pieces of an input are worked off one after the other, but for an end of what is there, which is kept for the
next piece.
-/

namespace Libx.Core

open List

universe u v

variable {α : Type u} {σ : Type v} {tail : List α → List α} {s t : List α}

/-- An end is held back, and it can be held back again when more has come. -/
structure Heldback (tail : List α → List α) : Prop where
  suffix : ∀ s, tail s <:+ s
  append : ∀ s t, tail (tail s ++ t) = tail (s ++ t)

def body (tail : List α → List α) (s : List α) : List α := s.take (s.length - (tail s).length)

def feedHeld (tail : List α → List α) (step : σ → α → σ) (x : σ × List α) (piece : List α) : σ × List α :=
  ((body tail (x.2 ++ piece)).foldl step x.1, tail (x.2 ++ piece))

namespace Heldback

theorem body_append_tail (h : Heldback tail) (s : List α) : body tail s ++ tail s = s := by
  obtain ⟨p, hp⟩ := h.suffix s
  have hlen : s.length - (tail s).length = p.length := by
    have := congrArg List.length hp
    rw [length_append] at this
    omega
  unfold body
  rw [hlen]
  nth_rewrite 1 [← hp]
  rw [take_left, hp]

theorem body_append (h : Heldback tail) (s t : List α) :
    body tail (s ++ t) = body tail s ++ body tail (tail s ++ t) := by
  have hwhole : body tail (s ++ t) ++ tail (s ++ t) =
      body tail s ++ body tail (tail s ++ t) ++ tail (s ++ t) := by
    rw [h.body_append_tail, ← h.append, append_assoc, h.body_append_tail, ← append_assoc,
      h.body_append_tail]
  exact append_cancel_right hwhole

variable {step : σ → α → σ} {x : σ × List α}

/-- **Two pieces are one.** -/
theorem feed_append (h : Heldback tail) (p q : List α) :
    feedHeld tail step (feedHeld tail step x p) q = feedHeld tail step x (p ++ q) := by
  unfold feedHeld
  rw [h.append, ← foldl_append, ← h.body_append, append_assoc]

theorem feed_nil (h : Heldback tail) (hx : tail x.2 = x.2) : feedHeld tail step x [] = x := by
  have hbody : body tail x.2 = [] := by
    have := h.body_append_tail x.2
    rw [hx] at this
    exact append_left_eq_self.mp this
  unfold feedHeld
  rw [List.append_nil, hbody, hx]
  rfl

/-- **The pieces do not matter.** -/
theorem feed_flatten (h : Heldback tail) (hx : tail x.2 = x.2) (pieces : List (List α)) :
    pieces.foldl (feedHeld tail step) x = feedHeld tail step x pieces.flatten := by
  induction pieces generalizing x with
  | nil => exact (h.feed_nil hx).symm
  | cons p ps ih =>
    have hagain : tail (feedHeld tail step x p).2 = (feedHeld tail step x p).2 := by
      have := h.append (x.2 ++ p) []
      rw [List.append_nil, List.append_nil] at this
      exact this
    rw [foldl_cons, ih hagain, h.feed_append, flatten_cons]

end Heldback

end Libx.Core
