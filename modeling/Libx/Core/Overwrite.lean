import Mathlib

/-!
# Libx.Core.Overwrite — writes at an offset

A file is a list; a write at an offset replaces what is there, and a gap that it leaves is filled.
-/

namespace Libx.Core

open List

universe u

variable {α : Type u} {z : α} {off p : ℕ} {data l : List α}

/-- `data` is written at `off` over `l`; between the end of `l` and `off` stands `z`.  A write of nothing changes
nothing. -/
def overwrite (z : α) (off : ℕ) (data l : List α) : List α :=
  if data = [] then l
  else l.take off ++ List.replicate (off - l.length) z ++ data ++ l.drop (off + data.length)

@[simp] theorem overwrite_nil : overwrite z off [] l = l := if_pos rfl

theorem length_overwrite (h : data ≠ []) : (overwrite z off data l).length = max l.length (off + data.length) := by
  unfold overwrite
  rw [if_neg h]
  simp only [length_append, length_take, length_replicate, length_drop]
  omega

theorem length_le_overwrite : l.length ≤ (overwrite z off data l).length := by
  by_cases h : data = []
  · simp [h]
  · rw [length_overwrite h]
    exact le_max_left _ _

theorem getElem?_overwrite_mem (h1 : off ≤ p) (h2 : p < off + data.length) :
    (overwrite z off data l)[p]? = data[p - off]? := by
  have h : data ≠ [] := by
    rintro rfl
    rw [length_nil] at h2
    omega
  have hlen : (l.take off ++ List.replicate (off - l.length) z).length = off := by
    rw [length_append, length_take, length_replicate]
    omega
  unfold overwrite
  rw [if_neg h, List.getElem?_append_left, List.getElem?_append_right, hlen]
  · omega
  · rw [length_append, hlen]
    omega

theorem getElem?_overwrite_of_lt (hp : p < l.length) (h : p < off ∨ off + data.length ≤ p) :
    (overwrite z off data l)[p]? = l[p]? := by
  by_cases hd : data = []
  · rw [hd, overwrite_nil]
  have hlen : (l.take off ++ List.replicate (off - l.length) z).length = off := by
    rw [length_append, length_take, length_replicate]
    omega
  unfold overwrite
  rw [if_neg hd]
  rcases h with h | h
  · rw [append_assoc, append_assoc, List.getElem?_append_left, List.getElem?_take_of_lt h]
    rw [length_take]
    omega
  · rw [List.getElem?_append_right, List.getElem?_drop, length_append, hlen]
    · congr 1
      omega
    · rw [length_append, hlen]
      exact h

theorem getElem?_overwrite_gap (hd : data ≠ []) (hp : l.length ≤ p) (h : p < off) :
    (overwrite z off data l)[p]? = some z := by
  unfold overwrite
  rw [if_neg hd, append_assoc, append_assoc, List.getElem?_append_right, List.getElem?_append_left,
    List.getElem?_replicate_of_lt]
  · rw [length_take]
    omega
  · rw [length_replicate, length_take]
    omega
  · rw [length_take]
    omega

theorem getElem?_overwrite_of_le (hp : l.length ≤ p) (h : off + data.length ≤ p) :
    (overwrite z off data l)[p]? = none := by
  apply List.getElem?_eq_none
  by_cases hd : data = []
  · rw [hd, overwrite_nil]
    exact hp
  · rw [length_overwrite hd]
    exact max_le hp h

theorem getD_overwrite_mem (h1 : off ≤ p) (h2 : p < off + data.length) :
    (overwrite z off data l).getD p z = data.getD (p - off) z := by
  rw [getD_eq_getElem?_getD, getD_eq_getElem?_getD, getElem?_overwrite_mem h1 h2]

theorem getD_overwrite_of_not (h : ¬ (off ≤ p ∧ p < off + data.length)) :
    (overwrite z off data l).getD p z = l.getD p z := by
  rw [getD_eq_getElem?_getD, getD_eq_getElem?_getD]
  by_cases hp : p < l.length
  · rw [getElem?_overwrite_of_lt hp (by omega)]
  · rw [List.getElem?_eq_none (Nat.le_of_not_lt hp)]
    by_cases hd : data = []
    · rw [hd, overwrite_nil, List.getElem?_eq_none (Nat.le_of_not_lt hp)]
    · by_cases hgap : p < off
      · rw [getElem?_overwrite_gap hd (Nat.le_of_not_lt hp) hgap]
        rfl
      · rw [getElem?_overwrite_of_le (Nat.le_of_not_lt hp) (by omega)]

theorem overwrite_of_le (h : off + data.length ≤ l.length) :
    overwrite z off data l = l.take off ++ data ++ l.drop (off + data.length) := by
  by_cases hd : data = []
  · rw [hd, overwrite_nil, List.append_nil, length_nil, Nat.add_zero, take_append_drop]
  · unfold overwrite
    rw [if_neg hd, Nat.sub_eq_zero_of_le (by omega), replicate_zero, List.append_nil]

theorem overwrite_overwrite {off' : ℕ} {data' : List α} (ho : off' = off + data.length)
    (h : off' + data'.length ≤ l.length) :
    overwrite z off' data' (overwrite z off data l) = overwrite z off (data ++ data') l := by
  subst ho
  have hoff : (l.take off).length = off := by
    rw [length_take]
    omega
  have hlen : (l.take off ++ data ++ l.drop (off + data.length)).length = l.length := by
    simp only [length_append, hoff, length_drop]
    omega
  rw [overwrite_of_le (by omega : off + data.length ≤ l.length), overwrite_of_le (by rw [hlen]; exact h),
    overwrite_of_le (by rw [length_append]; omega)]
  have hpre : (l.take off ++ data).length = off + data.length := by rw [length_append, hoff]
  have htake : (l.take off ++ data ++ l.drop (off + data.length)).take (off + data.length) = l.take off ++ data :=
    take_left' hpre
  have hdrop : (l.take off ++ data ++ l.drop (off + data.length)).drop (off + data.length + data'.length) =
      l.drop (off + (data ++ data').length) := by
    rw [← drop_drop, drop_left' hpre, drop_drop, length_append, Nat.add_assoc]
  rw [htake, hdrop, append_assoc (l.take off) data data']

/-! ### Several writes -/

def overwrites (z : α) (ws : List (ℕ × List α)) (l : List α) : List α :=
  ws.foldl (fun l w => overwrite z w.1 w.2 l) l

@[simp] theorem overwrites_nil : overwrites z [] l = l := rfl

@[simp] theorem overwrites_cons (w : ℕ × List α) (ws : List (ℕ × List α)) :
    overwrites z (w :: ws) l = overwrites z ws (overwrite z w.1 w.2 l) := rfl

theorem length_le_overwrites (ws : List (ℕ × List α)) (l : List α) : l.length ≤ (overwrites z ws l).length := by
  induction ws generalizing l with
  | nil => exact le_rfl
  | cons w ws ih => exact length_le_overwrite.trans (ih _)

theorem length_overwrites_le {n : ℕ} {ws : List (ℕ × List α)} (hl : l.length ≤ n)
    (h : ∀ w ∈ ws, w.1 + w.2.length ≤ n) : (overwrites z ws l).length ≤ n := by
  induction ws generalizing l with
  | nil => exact hl
  | cons w ws ih =>
    rw [overwrites_cons]
    refine ih ?_ (fun v hv => h v (mem_cons_of_mem _ hv))
    by_cases hd : w.2 = []
    · rw [hd, overwrite_nil]
      exact hl
    · rw [length_overwrite hd]
      exact max_le hl (h w mem_cons_self)

theorem le_length_overwrites {w : ℕ × List α} {ws : List (ℕ × List α)} (hw : w ∈ ws) (hd : w.2 ≠ []) :
    w.1 + w.2.length ≤ (overwrites z ws l).length := by
  induction ws generalizing l with
  | nil => cases hw
  | cons v ws ih =>
    rw [overwrites_cons]
    rcases mem_cons.mp hw with rfl | hw
    · refine le_trans ?_ (length_le_overwrites _ _)
      rw [length_overwrite hd]
      exact le_max_right _ _
    · exact ih hw

end Libx.Core
