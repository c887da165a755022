import Mathlib

/-!
# Libx.Core.SinceLast — a list that is read back from a log with marks

A reader of a log goes back to its last marked entry.  A writer keeps a list, of which the first
`k` entries are what would be read back, and appends the rest at the end.
-/

namespace Libx.Core

open List

universe u

variable {α : Type u}

/-- The suffix from the last entry with `p` on; all entries if there is none. -/
def sinceLast (p : α → Bool) : List α → List α
  | [] => []
  | x :: xs => if xs.any p then sinceLast p xs else x :: xs

section

variable {p : α → Bool}

theorem sinceLast_cons (x : α) (xs : List α) :
    sinceLast p (x :: xs) = if xs.any p then sinceLast p xs else x :: xs := rfl

theorem sinceLast_sublist (p : α → Bool) (xs : List α) : (sinceLast p xs).Sublist xs := by
  induction xs with
  | nil => exact List.Sublist.refl _
  | cons x xs ih =>
    rw [sinceLast_cons]
    split_ifs
    · exact ih.trans (sublist_cons_self x xs)
    · exact List.Sublist.refl _

variable {xs : List α}

theorem sinceLast_eq_nil (h : sinceLast p xs = []) : xs = [] := by
  induction xs with
  | nil => rfl
  | cons x xs ih =>
    rw [sinceLast_cons] at h
    split_ifs at h with hany
    · rw [ih h] at hany
      exact absurd hany (by simp)

theorem sinceLast_tail (xs : List α) : ∀ x ∈ (sinceLast p xs).tail, p x = false := by
  induction xs with
  | nil => exact fun x hx => absurd hx (by simp [sinceLast])
  | cons x xs ih =>
    rw [sinceLast_cons]
    split_ifs with hany
    · exact ih
    · intro y hy
      by_contra hp
      exact hany (any_eq_true.mpr ⟨y, hy, by simpa using hp⟩)

theorem sinceLast_of_tail (h : ∀ x ∈ xs.tail, p x = false) : sinceLast p xs = xs := by
  cases xs with
  | nil => rfl
  | cons x xs =>
    have hany : ¬ xs.any p = true := by
      intro ha
      obtain ⟨y, hy, hp⟩ := any_eq_true.mp ha
      rw [h y hy] at hp
      exact absurd hp (by simp)
    rw [sinceLast_cons, if_neg hany]

theorem sinceLast_append {ys : List α} (hne : xs ≠ []) (h : ∀ y ∈ ys, p y = false) :
    sinceLast p (xs ++ ys) = sinceLast p xs ++ ys := by
  induction xs with
  | nil => exact absurd rfl hne
  | cons x xs ih =>
    have hys : ys.any p = false := any_eq_false.mpr (fun y hy => by simp [h y hy])
    by_cases hany : xs.any p = true
    · have hx : xs ≠ [] := by
        rintro rfl
        exact absurd hany (by simp)
      rw [cons_append, sinceLast_cons, sinceLast_cons, if_pos hany, any_append, hany, Bool.true_or,
        if_pos rfl]
      exact ih hx
    · rw [cons_append, sinceLast_cons, sinceLast_cons, if_neg hany, any_append, hys, Bool.or_false,
        if_neg hany]
      rfl

theorem sinceLast_concat (xs : List α) {z : α} (hz : p z = true) : sinceLast p (xs ++ [z]) = [z] := by
  induction xs with
  | nil => rfl
  | cons x xs ih =>
    have hany : (xs ++ [z]).any p = true := any_eq_true.mpr ⟨z, by simp, hz⟩
    rw [cons_append, sinceLast_cons, if_pos hany]
    exact ih

/-! ### The place of the last mark -/

/-- The place of the last entry with `p`. -/
def lastIdx (p : α → Bool) : List α → Option ℕ
  | [] => none
  | x :: xs =>
    match lastIdx p xs with
    | some k => some (k + 1)
    | none => if p x then some 0 else none

theorem lastIdx_cons (x : α) (xs : List α) : lastIdx p (x :: xs) =
    match lastIdx p xs with
    | some k => some (k + 1)
    | none => if p x then some 0 else none := rfl

theorem lastIdx_eq_none : lastIdx p xs = none ↔ xs.any p = false := by
  induction xs with
  | nil => exact iff_of_true rfl rfl
  | cons x xs ih =>
    rw [any_cons, Bool.or_eq_false_iff, ← ih, lastIdx_cons]
    cases lastIdx p xs with
    | none => cases p x <;> simp
    | some k => simp

/-- **Where the last mark stands**: behind `t` exactly when there is a mark behind `t`. -/
theorem lt_lastIdx {t : ℕ} :
    t < (lastIdx p xs).getD 0 ↔ (xs.drop (t + 1)).any p = true := by
  induction xs generalizing t with
  | nil => exact iff_of_false (Nat.not_lt_zero t) (by simp)
  | cons x xs ih =>
    rw [drop_succ_cons, lastIdx_cons]
    cases hl : lastIdx p xs with
    | none =>
      have hany : xs.any p = false := lastIdx_eq_none.mp hl
      refine iff_of_false ?_ ?_
      · split_ifs
        · exact Nat.not_lt_zero t
        · exact Nat.not_lt_zero t
      · intro h
        obtain ⟨y, hy, hp⟩ := any_eq_true.mp h
        exact absurd hp (any_eq_false.mp hany y (mem_of_mem_drop hy))
    | some k =>
      rw [hl] at ih
      show t < k + 1 ↔ _
      cases t with
      | zero =>
        refine iff_of_true (Nat.succ_pos k) ?_
        by_contra hany
        rw [drop_zero, Bool.not_eq_true] at hany
        exact absurd (hl.symm.trans (lastIdx_eq_none.mpr hany)) nofun
      | succ t => exact Nat.succ_lt_succ_iff.trans ih

theorem lastIdx_le_iff {t : ℕ} :
    (lastIdx p xs).getD 0 ≤ t ↔ ∀ x ∈ xs.drop (t + 1), p x = false := by
  rw [← Nat.not_lt, lt_lastIdx, Bool.not_eq_true, any_eq_false]
  exact forall₂_congr fun x _ => Bool.not_eq_true (p x) ▸ Iff.rfl

theorem sinceLast_eq_drop (xs : List α) : sinceLast p xs = xs.drop ((lastIdx p xs).getD 0) := by
  induction xs with
  | nil => rfl
  | cons x xs ih =>
    rw [sinceLast_cons, lastIdx_cons]
    cases hl : lastIdx p xs with
    | none =>
      have hany : xs.any p = false := lastIdx_eq_none.mp hl
      rw [if_neg (by simp [hany])]
      split_ifs <;> rfl
    | some k =>
      have hany : xs.any p = true := by
        by_contra hany
        exact absurd (hl.symm.trans (lastIdx_eq_none.mpr (Bool.not_eq_true _ ▸ hany))) nofun
      rw [if_pos hany, ih, hl]
      rfl

theorem lastIdx_drop (xs : List α) (t : ℕ) :
    (lastIdx p (xs.drop t)).getD 0 = (lastIdx p xs).getD 0 - t := by
  have h : ∀ u, u < (lastIdx p (xs.drop t)).getD 0 ↔ u < (lastIdx p xs).getD 0 - t := by
    intro u
    rw [lt_lastIdx, drop_drop, show t + (u + 1) = u + t + 1 by omega, ← lt_lastIdx]
    omega
  have h1 := h ((lastIdx p xs).getD 0 - t)
  have h2 := h ((lastIdx p (xs.drop t)).getD 0)
  omega

theorem lastIdx_mono {q : α → Bool} (h : ∀ x ∈ xs, p x = true → q x = true) :
    (lastIdx p xs).getD 0 ≤ (lastIdx q xs).getD 0 := by
  by_contra hlt
  have hp := lt_lastIdx.mp (Nat.not_le.mp hlt)
  obtain ⟨x, hx, hpx⟩ := any_eq_true.mp hp
  have hq := lt_lastIdx.mpr (any_eq_true.mpr ⟨x, hx, h x (mem_of_mem_drop hx) hpx⟩)
  omega

theorem lastIdx_le (xs : List α) : (lastIdx p xs).getD 0 ≤ xs.length := by
  by_contra hlt
  have hp := lt_lastIdx.mp (Nat.not_le.mp hlt)
  rw [drop_eq_nil_of_le (Nat.le_succ _)] at hp
  exact absurd hp (by simp)

theorem lastIdx_map {β : Type*} (f : β → α) (xs : List β) : lastIdx p (xs.map f) = lastIdx (p ∘ f) xs := by
  induction xs with
  | nil => rfl
  | cons x xs ih =>
    rw [map_cons, lastIdx_cons, lastIdx_cons, ih]
    rfl

theorem lastIdx_congr {q : α → Bool} (h : ∀ x ∈ xs, p x = q x) : lastIdx p xs = lastIdx q xs := by
  induction xs with
  | nil => rfl
  | cons x xs ih =>
    rw [lastIdx_cons, lastIdx_cons, ih (fun y hy => h y (mem_cons_of_mem x hy)), h x mem_cons_self]

end

/-! ### A list and its log -/

/-- The first `k` entries of `h` are what would be read back of the log, and no entry of `h` but
the first is a mark. -/
structure Restores (p : α → Bool) (log h : List α) (k : ℕ) : Prop where
  bound : k ≤ h.length
  tail : ∀ x ∈ h.tail, p x = false
  read : sinceLast p log = h.take k

namespace Restores

variable {p : α → Bool} {log h : List α} {k : ℕ}

theorem of_log (p : α → Bool) (log : List α) :
    Restores p log (sinceLast p log) (sinceLast p log).length :=
  ⟨Nat.le_refl _, sinceLast_tail log, (take_length).symm⟩

theorem append (hr : Restores p log h k) {es : List α} (htail : ∀ x ∈ es.tail, p x = false)
    (hhead : h ≠ [] → ∀ x ∈ es, p x = false) : Restores p log (h ++ es) k := by
  refine ⟨?_, ?_, ?_⟩
  · rw [length_append]
    exact Nat.le_trans hr.bound (Nat.le_add_right _ _)
  · intro x hx
    by_cases he : h = []
    · rw [he] at hx
      exact htail x hx
    · rw [tail_append_of_ne_nil he] at hx
      rcases mem_append.mp hx with h1 | h1
      · exact hr.tail x h1
      · exact hhead he x h1
  · rw [take_append_of_le_length hr.bound]
    exact hr.read

theorem map (hr : Restores p log h k) {g : α → α} (hmark : ∀ x, p (g x) = p x)
    (hfix : ∀ x ∈ h.take k, g x = x) : Restores p log (h.map g) k := by
  refine ⟨by rw [length_map]; exact hr.bound, ?_, ?_⟩
  · intro x hx
    rw [← map_tail] at hx
    obtain ⟨y, hy, rfl⟩ := mem_map.mp hx
    rw [hmark]
    exact hr.tail y hy
  · rw [← map_take, map_congr_left hfix, map_id']
    exact hr.read

theorem restart (hr : Restores p log h k) (more : List α) {z : α} (hz : p z = true) {b : ℕ}
    (hb : 0 < b) : Restores p (log ++ more ++ [z]) (z :: h.drop b) 1 := by
  refine ⟨by simp, ?_, ?_⟩
  · intro x hx
    refine hr.tail x ?_
    rw [tail_cons, show b = 1 + (b - 1) by omega, ← drop_drop, drop_one] at hx
    exact mem_of_mem_drop hx
  · rw [sinceLast_concat _ hz]
    rfl

/-- **The rest is appended**: the whole list is read back. -/
theorem flush (hr : Restores p log h k) : sinceLast p (log ++ h.drop k) = h := by
  by_cases hlog : log = []
  · have hk : h.take k = [] := by rw [← hr.read, hlog]; rfl
    have hd : h.drop k = h := by
      conv_rhs => rw [← take_append_drop k h, hk, nil_append]
    rw [hlog, nil_append, hd]
    exact sinceLast_of_tail hr.tail
  · have hk : 0 < k := by
      by_contra h0
      have hk : k = 0 := by omega
      have hread := hr.read
      rw [hk, take_zero] at hread
      exact hlog (sinceLast_eq_nil hread)
    have hrest : ∀ x ∈ h.drop k, p x = false := by
      intro x hx
      rw [show k = 1 + (k - 1) by omega, ← drop_drop, drop_one] at hx
      exact hr.tail x (mem_of_mem_drop hx)
    rw [sinceLast_append hlog hrest, hr.read, take_append_drop]

end Restores

end Libx.Core
