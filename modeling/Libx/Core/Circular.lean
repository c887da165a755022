import Mathlib

/-!
# Libx.Core.Circular — stretches around a ring

The places of a ring of `cap` from some place on, as one stretch or, around the end, as two; memory is a function of the
place.
-/

namespace Libx.Core

open List

variable {α : Type*} {cap pos m n i j : ℕ}

/-- The `n` places from `pos` on. -/
def slots (cap pos n : ℕ) : List ℕ := (List.range n).map fun j => (pos + j) % cap

/-- The places of a stretch: where it begins, and its length. -/
def places (s : ℕ × ℕ) : List ℕ := (List.range s.2).map fun j => s.1 + j

def stretches (cap pos n : ℕ) : List (ℕ × ℕ) :=
  if n = 0 then []
  else if n ≤ cap - pos then [(pos, n)]
  else [(pos, cap - pos), (0, n - (cap - pos))]

theorem add_mod_cap (hp : pos < cap) (hj : j ≤ cap) :
    (pos + j) % cap = if pos + j < cap then pos + j else pos + j - cap := by
  split_ifs with h
  · exact Nat.mod_eq_of_lt h
  · rw [Nat.mod_eq_sub_mod (by omega)]
    exact Nat.mod_eq_of_lt (by omega)

@[simp] theorem length_slots : (slots cap pos n).length = n := by
  rw [slots, length_map, length_range]

theorem slots_add (cap pos m n : ℕ) : slots cap pos (m + n) = slots cap pos m ++ slots cap (pos + m) n := by
  unfold slots
  rw [range_add, map_append, map_map]
  simp only [Function.comp_def, Nat.add_assoc]

theorem slots_mod {k : ℕ} (h : cap ∣ k) (pos n : ℕ) : slots cap (pos % k) n = slots cap pos n := by
  refine map_congr_left fun j _ => ?_
  rw [Nat.add_mod, Nat.mod_mod_of_dvd _ h, ← Nat.add_mod]

theorem slots_eq (hp : pos < cap) (hn : n ≤ cap) : slots cap pos n = (stretches cap pos n).flatMap places := by
  have hone : ∀ {k : ℕ}, k ≤ cap - pos → slots cap pos k = places (pos, k) := by
    intro k hk
    refine map_congr_left fun j hj => ?_
    have := mem_range.1 hj
    exact Nat.mod_eq_of_lt (by omega)
  unfold stretches
  split_ifs with h0 h1
  · subst h0
    rfl
  · rw [flatMap_cons, flatMap_nil, List.append_nil]
    exact hone h1
  · obtain ⟨k, rfl⟩ : ∃ k, n = (cap - pos) + k := ⟨n - (cap - pos), by omega⟩
    have htwo : slots cap (pos + (cap - pos)) k = places (0, k) := by
      refine map_congr_left fun j hj => ?_
      have := mem_range.1 hj
      rw [show pos + (cap - pos) + j = j + cap by omega, Nat.add_mod_right, Nat.mod_eq_of_lt (by omega)]
      exact (Nat.zero_add j).symm
    rw [slots_add, hone (Nat.le_refl _), htwo, Nat.add_sub_cancel_left]
    simp

theorem perm_slots (cap pos : ℕ) : (slots cap pos cap).Perm (List.range cap) := by
  have hrot : slots cap pos cap = (List.range cap).rotate (pos % cap) := by
    unfold slots
    refine ext_getElem (by simp) fun i hi hi' => ?_
    rw [getElem_map, getElem_range, getElem_rotate, getElem_range, length_range, Nat.add_comm i]
    exact (Nat.mod_add_mod pos cap i).symm
  rw [hrot]
  exact rotate_perm _ _

/-! ### Memory -/

/-- `n` elements of `src` at `pos`. -/
def blit (mem : ℕ → α) (pos : ℕ) (src : ℕ → α) (n : ℕ) : ℕ → α :=
  fun i => if pos ≤ i ∧ i < pos + n then src (i - pos) else mem i

def wrapped (cap : ℕ) (mem : ℕ → α) (pos : ℕ) (src : ℕ → α) (n : ℕ) : ℕ → α :=
  if n ≤ cap - pos then blit mem pos src n
  else blit (blit mem pos src (cap - pos)) 0 (fun j => src (cap - pos + j)) (n - (cap - pos))

@[simp] theorem blit_zero (mem : ℕ → α) (pos : ℕ) (src : ℕ → α) : blit mem pos src 0 = mem := by
  funext i
  exact if_neg (by omega)

theorem wrapped_slot (mem src : ℕ → α) (hp : pos < cap) (hn : n ≤ cap) (hj : j < n) :
    wrapped cap mem pos src n ((pos + j) % cap) = src j := by
  rw [add_mod_cap hp (by omega)]
  unfold wrapped blit
  by_cases h : n ≤ cap - pos
  · rw [if_pos h, if_pos (show pos + j < cap by omega), if_pos (by omega), Nat.add_sub_cancel_left]
  · rw [if_neg h]
    by_cases hend : pos + j < cap
    · rw [if_pos hend]
      rw [if_neg (by omega), if_pos (by omega), Nat.add_sub_cancel_left]
    · rw [if_neg hend]
      dsimp only
      rw [if_pos (by omega)]
      congr 1
      omega

theorem wrapped_other (mem src : ℕ → α) (hp : pos < cap) (hj : n ≤ j) (hj' : j < cap) :
    wrapped cap mem pos src n ((pos + j) % cap) = mem ((pos + j) % cap) := by
  rw [add_mod_cap hp (by omega)]
  unfold wrapped blit
  by_cases h : n ≤ cap - pos
  · rw [if_pos h, if_neg (by split_ifs <;> omega)]
  · rw [if_neg h]
    rw [if_neg (by split_ifs <;> omega), if_neg (by split_ifs <;> omega)]

theorem map_wrapped (mem src : ℕ → α) (h : 0 < cap) (hmn : m + n ≤ cap) :
    (slots cap pos (m + n)).map (wrapped cap mem ((pos + m) % cap) src n) =
      (slots cap pos m).map mem ++ (List.range n).map src := by
  have hp : (pos + m) % cap < cap := Nat.mod_lt _ h
  rw [slots_add, map_append]
  refine congrArg₂ _ ?_ ?_
  · refine map_congr_left fun i hi => ?_
    obtain ⟨j, hj, rfl⟩ := mem_map.1 hi
    have hj := mem_range.1 hj
    -- the place `j` is `cap - m + j` places behind where the elements are written
    have hplace : (pos + j) % cap = ((pos + m) % cap + (cap - m + j)) % cap := by
      rw [Nat.mod_add_mod, show pos + m + (cap - m + j) = pos + j + cap by omega, Nat.add_mod_right]
    rw [hplace]
    exact wrapped_other mem src hp (by omega) (by omega)
  · unfold slots
    rw [map_map]
    refine map_congr_left fun j hj => ?_
    have hj := mem_range.1 hj
    rw [Function.comp_apply, ← Nat.mod_add_mod (pos + m)]
    exact wrapped_slot mem src hp (by omega) hj

end Libx.Core
