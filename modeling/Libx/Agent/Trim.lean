import Libx.Agent.Gate

/-!
# Libx.Agent.Trim — which trimmings of tool results are safe

`session_trim_consumed_tool_results_` puts a marker in place of every output that is not one, whether the model has seen
the result or not, and whatever the length of the output is.
-/

namespace Libx.Agent

open List

/-- What `session_trim_consumed_tool_results_` returns. -/
def trimmedCount (ok : ℕ → Bool) (s : Session) : ℕ := s.history.countP (fun x => x.entry.trimmable && ok x.uid)

/-- An Assistant entry comes behind the `i`-th one. -/
def Consumed (h : List Slot) (i : ℕ) : Prop := ∃ j x, i < j ∧ h[j]? = some x ∧ x.entry.role = .assistant

/-- The `i`-th entry `x` stays, or it is a result that was consumed and gets an output that is no longer. -/
def Spares (h : List Slot) (i : ℕ) (x y : Slot) : Prop :=
  y = x ∨ Consumed h i ∧ y.uid = x.uid ∧ ∃ id output output' isError, x.entry = .toolResult id output isError ∧
    y.entry = .toolResult id output' isError ∧ output'.length ≤ output.length

/-- What is asked of a trimming; `ok'` are the allocations of the next one. -/
structure TrimSafe (ok ok' : ℕ → Bool) (s : Session) : Prop where
  length : (sessionTrim ok s).history.length = s.history.length
  spares : ∀ i x y, s.history[i]? = some x → (sessionTrim ok s).history[i]? = some y → Spares s.history i x y
  estimate : estimateTokens (entries (sessionTrim ok s).history) ≤ estimateTokens (entries s.history)
  again : sessionTrim ok' (sessionTrim ok s) = sessionTrim ok s ∧ trimmedCount ok' (sessionTrim ok s) = 0

/-- **The condition**: what is trimmed was consumed and is no shorter than its marker, and what could not be trimmed for
want of memory cannot be trimmed the next time either. -/
def TrimClean (ok ok' : ℕ → Bool) (s : Session) : Prop :=
  ∀ i x, s.history[i]? = some x → x.entry.trimmable = true →
    if ok x.uid then Consumed s.history i ∧ (trimMarker x.entry.payload).length ≤ x.entry.payload else ok' x.uid = false

variable {ok ok' : ℕ → Bool} {s : Session}

/-! ### One entry -/

theorem trimSlot_of_trimmable {x : Slot} (ht : x.entry.trimmable = true) (hok : ok x.uid = true) :
    trimSlot ok x = { x with entry := x.entry.trim } := by
  unfold trimSlot
  rw [ht, hok, Bool.and_self, if_pos rfl]

theorem trimSlot_of_not {x : Slot} (h : (x.entry.trimmable && ok x.uid) = false) : trimSlot ok x = x := by
  unfold trimSlot
  rw [h, if_neg Bool.false_ne_true]

theorem toolResult_of_trimmable {e : Entry} (h : e.trimmable = true) :
    ∃ id output isError, e = .toolResult id output isError := by
  cases e with
  | toolResult id output isError => exact ⟨id, output, isError, rfl⟩
  | _ => exact absurd h (by simp [Entry.trimmable])

theorem spares_trim_iff {h : List Slot} {i : ℕ} {x : Slot} (ht : x.entry.trimmable = true) :
    Spares h i x { x with entry := x.entry.trim } ↔
      Consumed h i ∧ (trimMarker x.entry.payload).length ≤ x.entry.payload := by
  obtain ⟨id, output, isError, he⟩ := toolResult_of_trimmable ht
  constructor
  · rintro (hs | ⟨hc, -, id', out, out', err', hx, hy, hl⟩)
    · exact absurd (congrArg Slot.entry hs) (trim_ne ht)
    · rw [hx] at hy ⊢
      obtain ⟨-, rfl, -⟩ := Entry.toolResult.inj hy
      exact ⟨hc, hl⟩
  · rintro ⟨hc, hl⟩
    refine .inr ⟨hc, rfl, id, output, trimMarker output.length, isError, he, ?_, ?_⟩
    · show x.entry.trim = _
      rw [he]
      rfl
    · rw [he] at hl
      exact hl

/-! ### The history -/

theorem sessionTrim_history (ok : ℕ → Bool) (s : Session) : (sessionTrim ok s).history = s.history.map (trimSlot ok) := by
  unfold sessionTrim
  by_cases h : s.history.any (fun x => x.entry.trimmable && ok x.uid) = true
  · rw [if_pos h]
  · rw [if_neg h]
    refine (map_id s.history).symm.trans (map_congr_left fun x hx => ?_)
    rw [Bool.not_eq_true, any_eq_false] at h
    exact (trimSlot_of_not (Bool.eq_false_iff.mpr (h x hx))).symm

theorem trimmable_trimSlot {x : Slot} (h : (trimSlot ok x).entry.trimmable = true) :
    x.entry.trimmable = true ∧ ok x.uid = false := by
  by_cases hx : (x.entry.trimmable && ok x.uid) = true
  · obtain ⟨ht, hok⟩ := Bool.and_eq_true_iff.mp hx
    rw [trimSlot_of_trimmable ht hok, trim_trimmable] at h
    exact absurd h Bool.false_ne_true
  · rw [Bool.not_eq_true] at hx
    rw [trimSlot_of_not hx] at h
    exact ⟨h, by rwa [h, Bool.true_and] at hx⟩

theorem sessionTrim_of_count (h : trimmedCount ok s = 0) : sessionTrim ok s = s := by
  refine if_neg fun hany => ?_
  obtain ⟨x, hx, hp⟩ := any_eq_true.mp hany
  exact absurd hp (countP_eq_zero.mp h x hx)

theorem trimmedCount_again : trimmedCount ok' (sessionTrim ok s) = 0 ↔
    ∀ x ∈ s.history, x.entry.trimmable = true → ok x.uid = false → ok' x.uid = false := by
  unfold trimmedCount
  rw [countP_eq_zero, sessionTrim_history, forall_mem_map]
  refine forall₂_congr fun x _ => ?_
  rw [trimSlot_uid, Bool.and_eq_true, not_and, Bool.not_eq_true]
  constructor
  · intro h ht hok
    refine h ?_
    rw [trimSlot_of_not (by rw [hok, Bool.and_false])]
    exact ht
  · intro h ht
    exact h (trimmable_trimSlot ht).1 (trimmable_trimSlot ht).2

theorem estimateTokens_le_of_spares {g h : List Slot} (hl : g.length = h.length)
    (hs : ∀ (i : ℕ) (x y : Slot), h[i]? = some x → g[i]? = some y → Spares h i x y) :
    estimateTokens (entries g) ≤ estimateTokens (entries h) := by
  have hsum : ((entries g).map Entry.payload).sum ≤ ((entries h).map Entry.payload).sum := by
    refine List.Forall₂.sum_le_sum (forall₂_iff_get.mpr ⟨by simp [entries, hl], fun i h₁ h₂ => ?_⟩)
    simp only [entries, length_map] at h₁ h₂
    simp only [entries, map_map, get_eq_getElem, getElem_map, Function.comp_apply]
    rcases hs i _ _ (List.getElem?_eq_getElem h₂) (List.getElem?_eq_getElem h₁) with hx | ⟨-, -, id, out, out', err, hx, hy, hle⟩
    · rw [hx]
    · rw [hx, hy]
      exact hle
  unfold estimateTokens
  rw [show (entries g).length = (entries h).length by simp [entries, hl]]
  exact Nat.add_le_add_right (Nat.div_le_div_right hsum) _

/-- **A trimming is safe exactly where it is clean.** -/
theorem trimSafe_iff (ok ok' : ℕ → Bool) (s : Session) : TrimSafe ok ok' s ↔ TrimClean ok ok' s := by
  have hget : ∀ (i : ℕ) (x : Slot), s.history[i]? = some x → (sessionTrim ok s).history[i]? = some (trimSlot ok x) := by
    intro i x hx
    rw [sessionTrim_history, List.getElem?_map, hx]
    rfl
  constructor
  · intro h i x hx ht
    split_ifs with hok
    · refine (spares_trim_iff ht).mp ?_
      rw [← trimSlot_of_trimmable ht hok]
      exact h.spares i x _ hx (hget i x hx)
    · exact trimmedCount_again.mp h.again.2 x (mem_of_getElem? hx) ht (Bool.eq_false_iff.mpr hok)
  · intro h
    have hlength : (sessionTrim ok s).history.length = s.history.length := by
      rw [sessionTrim_history, length_map]
    have hspares : ∀ (i : ℕ) (x y : Slot), s.history[i]? = some x → (sessionTrim ok s).history[i]? = some y → Spares s.history i x y := by
      intro i x y hx hy
      obtain rfl : trimSlot ok x = y := Option.some.inj ((hget i x hx).symm.trans hy)
      by_cases hp : (x.entry.trimmable && ok x.uid) = true
      · obtain ⟨ht, hok⟩ := Bool.and_eq_true_iff.mp hp
        have hc := h i x hx ht
        rw [if_pos hok] at hc
        rw [trimSlot_of_trimmable ht hok]
        exact (spares_trim_iff ht).mpr hc
      · exact .inl (trimSlot_of_not (Bool.eq_false_iff.mpr hp))
    have hcount : trimmedCount ok' (sessionTrim ok s) = 0 := by
      refine trimmedCount_again.mpr fun x hx ht hok => ?_
      obtain ⟨i, hi⟩ := List.getElem?_of_mem hx
      have hc := h i x hi ht
      rwa [if_neg (by rw [hok]; exact Bool.false_ne_true)] at hc
    exact ⟨hlength, hspares, estimateTokens_le_of_spares hlength hspares, sessionTrim_of_count hcount, hcount⟩

/-- The session behind a call of a tool that was aborted. -/
def aborted : Session :=
  { history := slotsFrom 0 [.text .user [104, 105], .toolUse [97] [99, 97, 108, 99] [123, 125], .toolResult [97] [52] false] }

/-- The model has not seen the result, which becomes longer, and so does the estimate. -/
theorem not_trimSafe_aborted : ¬ TrimSafe (fun _ => true) (fun _ => true) aborted :=
  fun h => absurd h.estimate (by decide)

end Libx.Agent
