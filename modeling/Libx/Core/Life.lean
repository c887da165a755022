import Mathlib

/-!
# Libx.Core.Life — a resource that is released once

What has to be released exactly once goes from `unmade` to `held`, and from there to `released` or to
another owner; every other move is `twice`, which no move leaves.
-/

namespace Libx.Core

/-- Where a resource is. -/
inductive Life
  | unmade
  | held
  | released
  | handed
  | twice
  deriving DecidableEq, Repr

namespace Life

variable {l : Life}

def make : Life → Life
  | unmade => held
  | _ => twice

def release : Life → Life
  | held => released
  | _ => twice

def hand : Life → Life
  | held => handed
  | _ => twice

/-- A release behind a test of the pointer, which is cleared. -/
def drop : Life → Life
  | held => released
  | l => l

def Gone (l : Life) : Prop := l = unmade ∨ l = released

def Kept (l : Life) : Prop := l.Gone ∨ l = held

instance (l : Life) : Decidable l.Gone := inferInstanceAs (Decidable (_ ∨ _))

instance (l : Life) : Decidable l.Kept := inferInstanceAs (Decidable (_ ∨ _))

theorem Gone.kept (h : l.Gone) : l.Kept := .inl h

theorem gone_drop (h : l.Kept) : l.drop.Gone := by
  rcases h with (rfl | rfl) | rfl <;> decide

end Life

end Libx.Core
