import Mathlib

/-!
# Libx.Core.Split — texts cut at separators
-/

namespace Libx.Core

open List Option

variable {α : Type*} [DecidableEq α] {x : α} {l a b : List α}

/-- Before and behind the first `x`. -/
def cut (x : α) : List α → Option (List α × List α)
  | [] => none
  | c :: l => if c = x then some ([], l) else (cut x l).map fun r => (c :: r.1, r.2)

/-- Before and behind the last `x`. -/
def cutLast (x : α) : List α → Option (List α × List α)
  | [] => none
  | c :: l =>
    match cutLast x l with
    | some r => some (c :: r.1, r.2)
    | none => if c = x then some ([], l) else none

/-- Before and behind the first `pat`. -/
def cutAt (pat : List α) : List α → Option (List α × List α)
  | [] => none
  | c :: l => if pat <+: c :: l then some ([], (c :: l).drop pat.length) else (cutAt pat l).map fun r => (c :: r.1, r.2)

/-- The pieces between the `x`, less the empty ones. -/
def words (x : α) (l : List α) : List (List α) := (l.splitOn x).filter (· ≠ [])

/-- No `pat` begins before the one behind `a`. -/
def First (pat a : List α) : Prop := ∀ i < a.length, ¬pat <+: (a ++ pat).drop i

variable {p : α → Bool}

omit [DecidableEq α] in
theorem span_eq (ha : ∀ c ∈ a, p c = true) (hb : ∀ c ∈ b.head?, p c = false) :
    (a ++ b).takeWhile p = a ∧ (a ++ b).dropWhile p = b := by
  have htake : b.takeWhile p = [] := by
    cases b with
    | nil => rfl
    | cons c b => exact takeWhile_cons_of_neg (by simp [hb c rfl])
  have hdrop : b.dropWhile p = b := by
    cases b with
    | nil => rfl
    | cons c b => exact dropWhile_cons_of_neg (by simp [hb c rfl])
  constructor
  · rw [takeWhile_append_of_pos ha, htake, List.append_nil]
  · rw [dropWhile_append_of_pos ha, hdrop]

omit [DecidableEq α] in
theorem takeWhile_all : ∀ c ∈ l.takeWhile p, p c = true := fun _ h => mem_takeWhile_imp h

omit [DecidableEq α] in
theorem head_dropWhile : ∀ c ∈ (l.dropWhile p).head?, p c = false := by
  intro c hc
  have := List.head?_dropWhile_not p l
  rw [hc] at this
  simpa using this

omit [DecidableEq α] in
theorem takeWhile_dropWhile {q : α → Bool} (h : ∀ c, q c = true → p c = true) (l : List α) :
    (l.dropWhile q).takeWhile p = (l.takeWhile p).dropWhile q := by
  induction l with
  | nil => rfl
  | cons c l ih =>
    cases hq : q c with
    | true =>
      rw [dropWhile_cons_of_pos hq, takeWhile_cons_of_pos (h c hq), dropWhile_cons_of_pos hq, ih]
    | false =>
      rw [dropWhile_cons_of_neg (by simp [hq])]
      cases hp : p c with
      | true => rw [takeWhile_cons_of_pos hp, dropWhile_cons_of_neg (by simp [hq])]
      | false => rw [takeWhile_cons_of_neg (by simp [hp])]; rfl

omit [DecidableEq α] in
theorem dropWhile_congr {q : α → Bool} (h : ∀ c ∈ l, p c = q c) : l.dropWhile p = l.dropWhile q := by
  induction l with
  | nil => rfl
  | cons c l ih =>
    rw [dropWhile_cons, dropWhile_cons, h c mem_cons_self, ih fun d hd => h d (mem_cons_of_mem c hd)]

theorem cut_eq_none : cut x l = none ↔ x ∉ l := by
  induction l with
  | nil => simp [cut]
  | cons c l ih =>
    unfold cut
    split_ifs with h
    · simp [h]
    · rw [map_eq_none_iff, ih, mem_cons, not_or]
      exact ⟨fun hl => ⟨Ne.symm h, hl⟩, fun hl => hl.2⟩

theorem cut_eq_some : cut x l = some (a, b) ↔ l = a ++ x :: b ∧ x ∉ a := by
  induction l generalizing a with
  | nil => simp [cut]
  | cons c l ih =>
    unfold cut
    split_ifs with h
    · subst h
      cases a with
      | nil => simp [eq_comm]
      | cons d a => simp +contextual [eq_comm]
    · rw [map_eq_some_iff]
      constructor
      · rintro ⟨⟨a', b'⟩, hr, heq⟩
        obtain ⟨rfl, rfl⟩ := Prod.mk.inj heq
        obtain ⟨rfl, ha⟩ := ih.1 hr
        exact ⟨rfl, by rw [mem_cons, not_or]; exact ⟨Ne.symm h, ha⟩⟩
      · rintro ⟨heq, ha⟩
        cases a with
        | nil => exact absurd (List.cons.inj heq).1 h
        | cons d a =>
          obtain ⟨rfl, rfl⟩ := List.cons.inj heq
          exact ⟨(a, b), ih.2 ⟨rfl, fun hx => ha (mem_cons_of_mem _ hx)⟩, rfl⟩

theorem cut_eq_findIdx (x : α) (l : List α) :
    cut x l = (l.findIdx? (· = x)).map fun i => (l.take i, l.drop (i + 1)) := by
  induction l with
  | nil => rfl
  | cons c l ih =>
    rw [List.findIdx?_cons]
    unfold cut
    by_cases h : c = x
    · rw [if_pos h, if_pos (decide_eq_true h)]
      rfl
    · rw [if_neg h, if_neg (by simpa using h), ih, Option.map_map, Option.map_map]
      rfl

theorem cutLast_eq_none : cutLast x l = none ↔ x ∉ l := by
  induction l with
  | nil => simp [cutLast]
  | cons c l ih =>
    unfold cutLast
    cases hl : cutLast x l with
    | none =>
      have hx := ih.1 hl
      split_ifs with h
      · simp [h]
      · simp [hx, Ne.symm h]
    | some r =>
      have hx : x ∈ l := by
        by_contra hx
        rw [ih.2 hx] at hl
        cases hl
      simp [hx]

theorem cutLast_eq_some : cutLast x l = some (a, b) ↔ l = a ++ x :: b ∧ x ∉ b := by
  induction l generalizing a b with
  | nil => simp [cutLast]
  | cons c l ih =>
    unfold cutLast
    cases hl : cutLast x l with
    | none =>
      have hx := cutLast_eq_none.1 hl
      cases a with
      | nil =>
        split_ifs with h
        · subst h
          simp only [some.injEq, Prod.mk.injEq, true_and, nil_append, List.cons.injEq]
          exact ⟨fun he => ⟨he, he ▸ hx⟩, fun he => he.1⟩
        · simp [h]
      | cons d a =>
        refine iff_of_false ?_ ?_
        · split_ifs <;> simp
        · rintro ⟨heq, -⟩
          obtain ⟨-, rfl⟩ := List.cons.inj heq
          exact hx (by simp)
    | some r =>
      obtain ⟨a', b'⟩ := r
      obtain ⟨rfl, hb'⟩ := ih.1 hl
      cases a with
      | nil =>
        refine iff_of_false (by simp) ?_
        rintro ⟨heq, hb⟩
        obtain ⟨-, rfl⟩ := List.cons.inj heq
        exact hb (by simp)
      | cons d a =>
        have := ih (a := a) (b := b)
        rw [hl] at this
        simp only [some.injEq, Prod.mk.injEq, cons_append, List.cons.injEq] at this ⊢
        constructor
        · rintro ⟨⟨rfl, ha⟩, hb⟩
          obtain ⟨heq, hx⟩ := this.1 ⟨ha, hb⟩
          exact ⟨⟨rfl, heq⟩, hx⟩
        · rintro ⟨⟨rfl, heq⟩, hx⟩
          obtain ⟨ha, hb⟩ := this.2 ⟨heq, hx⟩
          exact ⟨⟨rfl, ha⟩, hb⟩

theorem words_append_cons (a b : List α) : words x (a ++ x :: b) = words x a ++ words x b := by
  unfold words
  rw [splitOn_append_cons_self, filter_append]

theorem words_cons_self (l : List α) : words x (x :: l) = words x l := by
  have := words_append_cons (x := x) [] l
  rwa [nil_append, show words x [] = [] by simp [words], nil_append] at this

theorem words_dropWhile (l : List α) : words x (l.dropWhile (· = x)) = words x l := by
  induction l with
  | nil => rfl
  | cons c l ih =>
    by_cases h : c = x
    · subst h
      rw [dropWhile_cons_of_pos (by simp), ih, words_cons_self]
    · rw [dropWhile_cons_of_neg (by simpa using h)]

theorem words_of_notMem (h : l ≠ []) (hx : x ∉ l) : words x l = [l] := by
  unfold words
  rw [splitOn_eq_singleton hx]
  simp [h]

theorem words_eq_cons (h : l ≠ []) (hx : l.head? ≠ some x) :
    words x l = l.takeWhile (· ≠ x) :: words x (l.dropWhile (· ≠ x)) := by
  have hne : l.takeWhile (· ≠ x) ≠ [] := by
    cases l with
    | nil => exact absurd rfl h
    | cons c l => simpa using hx
  have hmem : x ∉ l.takeWhile (· ≠ x) := fun hm => by simpa using takeWhile_all x hm
  have hsplit := (takeWhile_append_dropWhile (p := (· ≠ x)) (l := l)).symm
  cases hb : l.dropWhile (· ≠ x) with
  | nil =>
    rw [hb, List.append_nil] at hsplit
    rw [← hsplit, words_of_notMem h (hsplit ▸ hmem)]
    rfl
  | cons c b =>
    have hc : c = x := by
      have := head_dropWhile (p := (· ≠ x)) (l := l) c (by rw [hb]; rfl)
      simpa using this
    subst hc
    rw [words_cons_self]
    conv_lhs => rw [hsplit, hb, words_append_cons, words_of_notMem hne hmem]
    rfl

omit [DecidableEq α] in
theorem prefix_drop_append {pat : List α} {i : ℕ} (hi : i < a.length) :
    pat <+: (a ++ (pat ++ b)).drop i ↔ pat <+: (a ++ pat).drop i := by
  have hlen : pat.length ≤ ((a ++ pat).drop i).length := by
    rw [length_drop, length_append]
    omega
  rw [← append_assoc, drop_append_of_le_length (by rw [length_append]; omega)]
  exact ⟨fun h => prefix_of_prefix_length_le h (prefix_append _ _) hlen,
    fun h => h.trans (prefix_append _ _)⟩

theorem cutAt_eq_some {pat : List α} (hpat : pat ≠ []) :
    cutAt pat l = some (a, b) ↔ l = a ++ (pat ++ b) ∧ First pat a := by
  induction l generalizing a with
  | nil =>
    refine iff_of_false nofun ?_
    rintro ⟨heq, -⟩
    exact hpat (append_eq_nil_iff.1 (append_eq_nil_iff.1 heq.symm).2).1
  | cons c l ih =>
    unfold cutAt
    split_ifs with h
    · obtain ⟨t, ht⟩ := h
      rw [← ht, drop_left]
      cases a with
      | nil =>
        simp only [some.injEq, Prod.mk.injEq, true_and, nil_append, append_cancel_left_eq]
        exact ⟨fun he => ⟨he, fun i hi => absurd hi (Nat.not_lt_zero i)⟩, fun he => he.1⟩
      | cons d a =>
        refine iff_of_false (by simp) ?_
        -- the pattern is at the start already
        rintro ⟨heq, hfirst⟩
        refine hfirst 0 (by simp) ((prefix_drop_append (b := b) (by simp)).1 ?_)
        rw [drop_zero, ← heq]
        exact prefix_append _ _
    · rw [map_eq_some_iff]
      constructor
      · rintro ⟨⟨a', b'⟩, hr, heq⟩
        obtain ⟨rfl, rfl⟩ := Prod.mk.inj heq
        obtain ⟨rfl, hfirst⟩ := ih.1 hr
        refine ⟨rfl, fun i hi => ?_⟩
        cases i with
        | zero => exact fun hp => h ((prefix_drop_append (a := c :: a') (i := 0) (by simp)).2 hp)
        | succ i => exact hfirst i (by simpa using hi)
      · rintro ⟨heq, hfirst⟩
        cases a with
        | nil =>
          refine absurd ?_ h
          rw [heq]
          exact prefix_append _ _
        | cons d a =>
          obtain ⟨rfl, rfl⟩ := List.cons.inj heq
          exact ⟨(a, b), ih.2 ⟨rfl, fun i hi => hfirst (i + 1) (by simpa using hi)⟩, rfl⟩

end Libx.Core
