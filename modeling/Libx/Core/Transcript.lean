import Mathlib

/-!
# Libx.Core.Transcript — calls and their answers

A transcript is a list of items, each of which belongs to a turn of the caller (with a call or
without), to the answers, or to neither.  The calls of a turn are to be answered right behind it,
each exactly once, before anything else is said.
-/

namespace Libx.Core

open List Option

universe u v

/-- What an item is: part of a caller's turn, an answer, or something else. -/
inductive Mark (κ : Type v)
  | turn (call : Option κ)
  | answer (call : Option κ)
  | other
  deriving DecidableEq

/-- The calls that are owed an answer, and whether the caller's turn is going on. -/
structure Owed (κ : Type v) where
  calls : Multiset κ
  asking : Bool

variable {α : Type u} {κ : Type v} [DecidableEq κ]

namespace Owed

def nothing : Owed κ := ⟨0, false⟩

/-- One more item: a turn starts and anything else is said only when nothing is owed. -/
def next (o : Owed κ) : Mark κ → Option (Owed κ)
  | .turn c =>
    if o.asking = true ∨ o.calls = 0 then some ⟨o.calls + c.elim 0 singleton, true⟩ else none
  | .answer (some k) => if k ∈ o.calls then some ⟨o.calls.erase k, false⟩ else none
  | .answer none => some ⟨o.calls, false⟩
  | .other => if o.calls = 0 then some ⟨0, false⟩ else none

theorem next_answer (c : Multiset κ) (k : κ) (b : Bool) :
    next ⟨k ::ₘ c, b⟩ (.answer (some k)) = some ⟨c, false⟩ := by
  have hmem : k ∈ k ::ₘ c := Multiset.mem_cons_self k c
  rw [next, if_pos hmem, Multiset.erase_cons_head]

theorem next_zero (b b' : Bool) (m : Mark κ) : next ⟨0, b⟩ m = next ⟨0, b'⟩ m := by
  cases m with
  | turn c => simp [next]
  | answer k => cases k <;> simp [next]
  | other => rfl

end Owed

/-- What is owed behind a list of items, if it is in order. -/
def scan (mark : α → Mark κ) : Owed κ → List α → Option (Owed κ)
  | o, [] => some o
  | o, x :: xs => (o.next (mark x)).bind (fun o => scan mark o xs)

section Scan

variable {mark : α → Mark κ} {o o' : Owed κ} {xs ys : List α}

@[simp] theorem scan_nil : scan mark o [] = some o := rfl

theorem scan_cons (x : α) : scan mark o (x :: xs) = (o.next (mark x)).bind (fun o => scan mark o xs) :=
  rfl

theorem scan_append : scan mark o (xs ++ ys) = (scan mark o xs).bind (fun o => scan mark o ys) := by
  induction xs generalizing o with
  | nil => rfl
  | cons x xs ih =>
    rw [cons_append, scan_cons, scan_cons]
    cases o.next (mark x) with
    | none => rfl
    | some o₁ => exact ih

theorem scan_append_some (h : scan mark o xs = some o') : scan mark o (xs ++ ys) = scan mark o' ys := by
  rw [scan_append, h]
  rfl

theorem scan_zero (b b' : Bool) (hne : xs ≠ []) : scan mark ⟨0, b⟩ xs = scan mark ⟨0, b'⟩ xs := by
  cases xs with
  | nil => exact absurd rfl hne
  | cons x xs => rw [scan_cons, scan_cons, Owed.next_zero b b']

theorem scan_map {β : Type*} {g : β → α} {zs : List β} :
    scan mark o (zs.map g) = scan (fun z => mark (g z)) o zs := by
  induction zs generalizing o with
  | nil => rfl
  | cons z zs ih =>
    rw [map_cons, scan_cons, scan_cons]
    cases o.next (mark (g z)) with
    | none => rfl
    | some o₁ => exact ih

theorem scan_turn {c : Multiset κ} {b : Bool} (h : b = true ∨ c = 0) {ks : List (Option κ)}
    (hm : xs.map mark = ks.map Mark.turn) (hne : xs ≠ []) :
    scan mark ⟨c, b⟩ xs = some ⟨c + (ks.reduceOption : Multiset κ), true⟩ := by
  induction xs generalizing c b ks with
  | nil => exact absurd rfl hne
  | cons x xs ih =>
    cases ks with
    | nil => exact absurd hm (by simp)
    | cons k ks =>
      simp only [map_cons, List.cons.injEq] at hm
      have hnext : Owed.next ⟨c, b⟩ (mark x) = some ⟨c + k.elim 0 singleton, true⟩ := by
        rw [hm.1]
        exact if_pos h
      rw [scan_cons, hnext, bind_some]
      have hcons : ((k :: ks).reduceOption : Multiset κ) =
          k.elim 0 singleton + (ks.reduceOption : Multiset κ) := by
        cases k with
        | none | some k => simp
      rw [hcons, ← Multiset.add_assoc]
      by_cases hxs : xs = []
      · subst hxs
        have hks : ks = [] := by simpa using hm.2.symm
        subst hks
        simp
      · exact ih (.inl rfl) hm.2 hxs

def Mark.calls : Mark κ → Multiset κ
  | .turn (some k) => {k}
  | _ => 0

def Mark.answers : Mark κ → Multiset κ
  | .answer (some k) => {k}
  | _ => 0

/-- **The books balance**: what was owed and is called for is answered or owed. -/
theorem scan_balance (h : scan mark o xs = some o') :
    o.calls + (xs.map (fun x => (mark x).calls)).sum =
      (xs.map (fun x => (mark x).answers)).sum + o'.calls := by
  induction xs generalizing o with
  | nil =>
    injection h with h
    subst h
    simp
  | cons x xs ih =>
    rw [scan_cons] at h
    cases hn : o.next (mark x) with
    | none =>
      rw [hn] at h
      exact absurd h (by simp)
    | some o₁ =>
      rw [hn, bind_some] at h
      have hrec := ih h
      have hone : o.calls + (mark x).calls = (mark x).answers + o₁.calls := by
        cases hm : mark x with
        | turn c =>
          rw [hm] at hn
          simp only [Owed.next] at hn
          split_ifs at hn
          injection hn with hn
          subst hn
          cases c <;> simp [Mark.calls, Mark.answers]
        | answer k =>
          rw [hm] at hn
          cases k with
          | none =>
            simp only [Owed.next, some.injEq] at hn
            subst hn
            simp [Mark.calls, Mark.answers]
          | some k =>
            simp only [Owed.next] at hn
            split_ifs at hn with hk
            injection hn with hn
            subst hn
            simp only [Mark.calls, Mark.answers, add_zero, Multiset.singleton_add]
            exact (Multiset.cons_erase hk).symm
        | other =>
          rw [hm] at hn
          simp only [Owed.next] at hn
          split_ifs at hn with hz
          injection hn with hn
          subst hn
          simp [Mark.calls, Mark.answers, hz]
      rw [map_cons, map_cons, sum_cons, sum_cons, ← add_assoc, hone, add_assoc,
        add_assoc, hrec]

/-- **Items that are no answer may be left out of the answers.** -/
theorem scan_filter {keep : α → Bool} (hkeep : ∀ x, keep x = false → mark x = .answer none)
    (h : scan mark o xs = some o') {b : Bool} (hb : o.asking = true → b = true) :
    ∃ b', (o'.asking = true → b' = true) ∧
      scan mark ⟨o.calls, b⟩ (xs.filter keep) = some ⟨o'.calls, b'⟩ := by
  induction xs generalizing o b with
  | nil =>
    injection h with h
    subst h
    exact ⟨b, hb, rfl⟩
  | cons x xs ih =>
    rw [scan_cons] at h
    cases hn : o.next (mark x) with
    | none =>
      rw [hn] at h
      exact absurd h (by simp)
    | some o₁ =>
      rw [hn, bind_some] at h
      cases hk : keep x with
      | false =>
        rw [filter_cons_of_neg (by simp [hk])]
        rw [hkeep x hk] at hn
        have ho : o₁ = ⟨o.calls, false⟩ := by simpa [Owed.next] using hn.symm
        obtain ⟨b', hb', hs⟩ := ih h (b := b) (by rw [ho]; simp)
        rw [ho] at hs
        exact ⟨b', hb', hs⟩
      | true =>
        rw [filter_cons_of_pos hk, scan_cons]
        -- a turn that is going on stays one, every other item leaves the same behind
        have hstep : Owed.next ⟨o.calls, b⟩ (mark x) = some o₁ := by
          cases hm : mark x with
          | turn c =>
            rw [hm] at hn
            unfold Owed.next at hn ⊢
            dsimp only at hn ⊢
            split_ifs at hn with hc
            rw [if_pos (hc.imp hb id)]
            exact hn
          | answer k =>
            rw [hm] at hn
            cases k with
            | none | some k => exact hn
          | other =>
            rw [hm] at hn
            exact hn
        rw [hstep, bind_some]
        exact ih h id

end Scan

/-! ### Closed lists -/

/-- The list is in order and nothing is owed behind it. -/
def Closed (mark : α → Mark κ) (xs : List α) : Prop := ∃ b, scan mark .nothing xs = some ⟨0, b⟩

namespace Closed

variable {mark : α → Mark κ} {xs ys zs : List α}

theorem nil : Closed mark [] := ⟨false, rfl⟩

theorem scan_after (h : Closed mark xs) (hne : ys ≠ []) :
    scan mark .nothing (xs ++ ys) = scan mark .nothing ys := by
  obtain ⟨b, hb⟩ := h
  rw [scan_append_some hb]
  exact scan_zero b false hne

theorem append (h : Closed mark xs) (h' : Closed mark ys) : Closed mark (xs ++ ys) := by
  by_cases hne : ys = []
  · rw [hne, List.append_nil]
    exact h
  · unfold Closed
    rw [h.scan_after hne]
    exact h'

theorem single {x : α} (hc : (mark x).calls = 0) (ha : (mark x).answers = 0) : Closed mark [x] := by
  unfold Closed
  rw [scan_cons]
  cases hm : mark x with
  | turn k =>
    cases k with
    | none => exact ⟨true, rfl⟩
    | some k => exact absurd hc (by simp [hm, Mark.calls])
  | answer k =>
    cases k with
    | none => exact ⟨false, rfl⟩
    | some k => exact absurd ha (by simp [hm, Mark.answers])
  | other => exact ⟨false, rfl⟩

theorem of_append_other {x : α} (hx : mark x = .other) (h : Closed mark (xs ++ x :: ys)) :
    Closed mark xs ∧ Closed mark (x :: ys) := by
  obtain ⟨b, hb⟩ := h
  rw [scan_append] at hb
  cases hs : scan mark .nothing xs with
  | none =>
    rw [hs] at hb
    exact absurd hb (by simp)
  | some o =>
    rw [hs, bind_some, scan_cons, hx] at hb
    have hzero : o.calls = 0 := by
      by_contra hne
      rw [Owed.next, if_neg hne] at hb
      exact absurd hb (by simp)
    have ho : o = ⟨0, o.asking⟩ := by
      rw [← hzero]
    refine ⟨⟨o.asking, by rw [hs, ho]⟩, b, ?_⟩
    rw [ho, Owed.next_zero o.asking false] at hb
    rw [scan_cons, hx]
    exact hb

theorem take (h : Closed mark xs) {n : ℕ} (hn : ∀ x, xs[n]? = some x → mark x = .other) :
    Closed mark (xs.take n) := by
  by_cases hlt : n < xs.length
  · have hd : xs.drop n = xs[n] :: xs.drop (n + 1) := (drop_eq_getElem_cons hlt)
    rw [← take_append_drop n xs, hd] at h
    exact (of_append_other (hn _ (List.getElem?_eq_getElem hlt)) h).1
  · rw [take_of_length_le (by omega)]
    exact h

theorem drop (h : Closed mark xs) {n : ℕ} (hn : ∀ x, xs[n]? = some x → mark x = .other) :
    Closed mark (xs.drop n) := by
  by_cases hlt : n < xs.length
  · have hd : xs.drop n = xs[n] :: xs.drop (n + 1) := (drop_eq_getElem_cons hlt)
    rw [← take_append_drop n xs, hd] at h
    rw [hd]
    exact (of_append_other (hn _ (List.getElem?_eq_getElem hlt)) h).2
  · rw [drop_of_length_le (by omega)]
    exact nil

theorem splice (h : Closed mark xs) {a b : ℕ} {z : α} (hz : mark z = .other)
    (ha : ∀ x, xs[a]? = some x → mark x = .other) (hb : ∀ x, xs[b]? = some x → mark x = .other) :
    Closed mark (xs.take a ++ z :: xs.drop b) :=
  (h.take ha).append ((single (by rw [hz]; rfl) (by rw [hz]; rfl)).append (h.drop hb))

theorem filter {keep : α → Bool} (hkeep : ∀ x, keep x = false → mark x = .answer none)
    (h : Closed mark xs) : Closed mark (xs.filter keep) := by
  obtain ⟨b, hb⟩ := h
  obtain ⟨b', -, hs⟩ := scan_filter hkeep hb (b := false) id
  exact ⟨b', hs⟩

end Closed

end Libx.Core
