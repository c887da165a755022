import Mathlib

/-!
# Libx.Core.IndexedHeap — a binary heap whose elements know their places

An array heap that notes in each element where it is, as intrusive heaps do, so that an element can be taken out by its
own note.  The order is a parameter, as it may be read from somewhere else.
-/

namespace Libx.Core

open Function

/-- The array, and the place that each element has noted last. -/
structure IndexedHeap (α : Type*) where
  data : Array α := #[]
  idx : α → Option ℕ := fun _ => none

namespace IndexedHeap

variable {α : Type*}

/-- Every element of the heap has its place noted. -/
def Indexed (h : IndexedHeap α) : Prop := ∀ i (hi : i < h.data.size), h.idx h.data[i] = some i

/-- The same elements, no other's note has changed, and the places stay noted. -/
structure Same (h h' : IndexedHeap α) : Prop where
  mem : ∀ a, a ∈ h'.data ↔ a ∈ h.data
  size : h'.data.size = h.data.size
  frame : ∀ a, a ∉ h.data → h'.idx a = h.idx a
  indexed : h.Indexed → h'.Indexed

theorem Same.refl (h : IndexedHeap α) : Same h h := ⟨fun _ => Iff.rfl, rfl, fun _ _ => rfl, id⟩

variable {h : IndexedHeap α}

theorem Same.trans {h' h'' : IndexedHeap α} (h1 : Same h h') (h2 : Same h' h'') : Same h h'' where
  mem a := (h2.mem a).trans (h1.mem a)
  size := h2.size.trans h1.size
  frame a ha := (h2.frame a fun hm => ha ((h1.mem a).1 hm)).trans (h1.frame a ha)
  indexed hi := h2.indexed (h1.indexed hi)

variable {i : ℕ}

theorem Indexed.inj (hx : h.Indexed) {j : ℕ} {hi : i < h.data.size} {hj : j < h.data.size}
    (heq : h.data[i] = h.data[j]) : i = j := by
  have h1 := hx i hi
  rw [heq, hx j hj] at h1
  exact (Option.some.inj h1).symm

/-! ### The sifts -/

/-- The least of `i` and its children. -/
def smallest (lt : α → α → Bool) (h : IndexedHeap α) (i : ℕ) (hi : i < h.data.size) :
    { j // i ≤ j ∧ j < h.data.size } :=
  let l : { j // i ≤ j ∧ j < h.data.size } :=
    if hl : 2 * i + 1 < h.data.size then
      if lt h.data[2 * i + 1] h.data[i] then ⟨2 * i + 1, by omega, hl⟩ else ⟨i, Nat.le_refl i, hi⟩
    else ⟨i, Nat.le_refl i, hi⟩
  have := l.2.2
  if hr : 2 * i + 2 < h.data.size then
    if lt h.data[2 * i + 2] h.data[l.1] then ⟨2 * i + 2, by omega, hr⟩ else l
  else l

variable [DecidableEq α]

def swap (h : IndexedHeap α) (i j : ℕ) (hi : i < h.data.size) (hj : j < h.data.size) : IndexedHeap α where
  data := h.data.swap i j
  idx := Function.update (Function.update h.idx h.data[j] (some i)) h.data[i] (some j)

theorem swap_size (h : IndexedHeap α) {j : ℕ} (hi : i < h.data.size) (hj : j < h.data.size) :
    (h.swap i j hi hj).data.size = h.data.size := Array.size_swap

def siftUp (lt : α → α → Bool) (h : IndexedHeap α) (i : ℕ) (hi : i < h.data.size) : IndexedHeap α :=
  if h0 : 0 < i then
    if lt h.data[i] h.data[(i - 1) / 2] then
      siftUp lt (h.swap i ((i - 1) / 2) hi (by omega)) ((i - 1) / 2) (by rw [swap_size]; omega)
    else h
  else h
termination_by i

def siftDown (lt : α → α → Bool) (h : IndexedHeap α) (i : ℕ) (hi : i < h.data.size) : IndexedHeap α :=
  if (smallest lt h i hi).1 = i then h
  else
    siftDown lt (h.swap i (smallest lt h i hi).1 hi (smallest lt h i hi).2.2) (smallest lt h i hi).1
      (by rw [swap_size]; exact (smallest lt h i hi).2.2)
termination_by h.data.size - i
decreasing_by
  rw [swap_size]
  have := (smallest lt h i hi).2
  omega

theorem same_swap (h : IndexedHeap α) {j : ℕ} (hi : i < h.data.size) (hj : j < h.data.size) :
    Same h (h.swap i j hi hj) where
  mem a := (Array.swap_perm hi hj).mem_iff
  size := swap_size h hi hj
  frame a ha := by
    have hai : a ≠ h.data[i] := fun he => ha (he ▸ Array.getElem_mem hi)
    have haj : a ≠ h.data[j] := fun he => ha (he ▸ Array.getElem_mem hj)
    exact (update_of_ne hai _ _).trans (update_of_ne haj _ _)
  indexed hx := by
    intro k hk
    have hk' : k < h.data.size := by rwa [swap_size] at hk
    by_cases hki : k = i
    · have hget : (h.swap i j hi hj).data[k] = h.data[j] := (Array.getElem_swap ..).trans (if_pos hki)
      rw [hget, hki]
      by_cases hij : h.data[j] = h.data[i]
      · obtain rfl : j = i := hx.inj hij
        exact update_self ..
      · exact (update_of_ne hij _ _).trans (update_self ..)
    · by_cases hkj : k = j
      · have hget : (h.swap i j hi hj).data[k] = h.data[i] :=
          (Array.getElem_swap ..).trans ((if_neg hki).trans (if_pos hkj))
        rw [hget, hkj]
        exact update_self ..
      · have hget : (h.swap i j hi hj).data[k] = h.data[k] :=
          (Array.getElem_swap ..).trans ((if_neg hki).trans (if_neg hkj))
        rw [hget]
        have hni : h.data[k] ≠ h.data[i] := fun he => hki (hx.inj he)
        have hnj : h.data[k] ≠ h.data[j] := fun he => hkj (hx.inj he)
        exact ((update_of_ne hni _ _).trans (update_of_ne hnj _ _)).trans (hx k hk')

theorem same_siftUp (lt : α → α → Bool) (h : IndexedHeap α) (i : ℕ) (hi : i < h.data.size) :
    Same h (siftUp lt h i hi) := by
  fun_induction siftUp lt h i hi with
  | case1 h i hi h0 hlt ih => exact (same_swap h _ _).trans ih
  | case2 h i => exact .refl h
  | case3 h i => exact .refl h

theorem same_siftDown (lt : α → α → Bool) (h : IndexedHeap α) (i : ℕ) (hi : i < h.data.size) :
    Same h (siftDown lt h i hi) := by
  fun_induction siftDown lt h i hi with
  | case1 h i hi heq => exact .refl h
  | case2 h i hi hne ih => exact (same_swap h _ _).trans ih

/-! ### The operations -/

def push (lt : α → α → Bool) (h : IndexedHeap α) (a : α) : IndexedHeap α :=
  siftUp lt { data := h.data.push a, idx := Function.update h.idx a (some h.data.size) } h.data.size
    (by rw [Array.size_push]; exact Nat.lt_succ_self _)

/-- The last element comes to a place whose element is taken out. -/
def fill (h : IndexedHeap α) (i : ℕ) (hi : i < h.data.size - 1) : IndexedHeap α where
  data := (h.data.set i h.data[h.data.size - 1] (by omega)).pop
  idx := Function.update h.idx h.data[h.data.size - 1] (some i)

theorem fill_size (h : IndexedHeap α) (hi : i < h.data.size - 1) :
    (h.fill i hi).data.size = h.data.size - 1 := by
  rw [fill, Array.size_pop, Array.size_set]

/-- The least element is taken out; where it was, it notes still. -/
def pop (lt : α → α → Bool) (h : IndexedHeap α) : IndexedHeap α :=
  if hi : 0 < h.data.size - 1 then siftDown lt (h.fill 0 hi) 0 (by rw [fill_size]; exact hi)
  else { h with data := h.data.pop }

theorem pop_size (lt : α → α → Bool) (h : IndexedHeap α) : (h.pop lt).data.size = h.data.size - 1 := by
  rw [pop]
  by_cases hlt : 0 < h.data.size - 1
  · rw [dif_pos hlt, (same_siftDown ..).size, fill_size]
  · rw [dif_neg hlt]
    exact Array.size_pop ..

/-- The element at a place is taken out; where it was, it notes still. -/
def removeAt (lt : α → α → Bool) (h : IndexedHeap α) (i : ℕ) : IndexedHeap α :=
  if hi : i < h.data.size - 1 then
    siftDown lt (siftUp lt (h.fill i hi) i (by rw [fill_size]; exact hi)) i
      (by rw [(same_siftUp ..).size, fill_size]; exact hi)
  else if i < h.data.size then { h with data := h.data.pop }
  else h

/-- `a` comes to what is there. -/
structure Pushed (h : IndexedHeap α) (a : α) (h' : IndexedHeap α) : Prop where
  mem : ∀ b, b ∈ h'.data ↔ b ∈ h.data ∨ b = a
  frame : ∀ b, b ∉ h.data → b ≠ a → h'.idx b = h.idx b
  indexed : h.Indexed → a ∉ h.data → h'.Indexed

/-- `a` is taken out of what is there. -/
structure Removed (h : IndexedHeap α) (a : α) (h' : IndexedHeap α) : Prop where
  mem : ∀ b, b ∈ h'.data ↔ b ∈ h.data ∧ b ≠ a
  frame : ∀ b, b ∉ h'.data → h'.idx b = h.idx b
  indexed : h'.Indexed
  size : h'.data.size < h.data.size

theorem pushed_push (lt : α → α → Bool) (h : IndexedHeap α) (a : α) : Pushed h a (h.push lt a) := by
  have hs := same_siftUp lt { data := h.data.push a, idx := Function.update h.idx a (some h.data.size) }
    h.data.size (by rw [Array.size_push]; exact Nat.lt_succ_self _)
  refine ⟨fun b => ?_, fun b hb hne => ?_, fun hx ha => ?_⟩
  · exact (hs.mem b).trans Array.mem_push
  · refine (hs.frame b fun hm => ?_).trans (update_of_ne hne _ _)
    exact (Array.mem_push.1 hm).elim hb hne
  · refine hs.indexed fun i hi => ?_
    dsimp only at hi ⊢
    rw [Array.size_push] at hi
    by_cases hlt : i < h.data.size
    · have hne : h.data[i] ≠ a := fun he => ha (he ▸ Array.getElem_mem hlt)
      rw [Array.getElem_push_lt hlt, update_of_ne hne]
      exact hx i hlt
    · obtain rfl : i = h.data.size := by omega
      rw [Array.getElem_push_eq]
      exact update_self ..

theorem getElem_fill (h : IndexedHeap α) (hi : i < h.data.size - 1) {k : ℕ} (hk : k < h.data.size - 1)
    (hk' : k < (h.fill i hi).data.size) :
    (h.fill i hi).data[k] =
      if i = k then h.data[h.data.size - 1] else h.data[k] := by
  refine (Array.getElem_pop ..).trans ?_
  exact Array.getElem_set ..

theorem removed_fill (hx : h.Indexed) (hi : i < h.data.size - 1) :
    Removed h h.data[i] (h.fill i hi) := by
  have hsize := fill_size h hi
  have hlast : h.data[h.data.size - 1] ∈ (h.fill i hi).data := by
    have hmem : (h.fill i hi).data[i] ∈ (h.fill i hi).data := Array.getElem_mem (by omega)
    rwa [getElem_fill h hi hi, if_pos rfl] at hmem
  refine ⟨fun b => ⟨fun hb => ?_, fun ⟨hb, hne⟩ => ?_⟩, fun b hb => ?_, fun k hk => ?_, by omega⟩
  · obtain ⟨k, hk, rfl⟩ := Array.mem_iff_getElem.1 hb
    rw [hsize] at hk
    rw [getElem_fill h hi hk]
    by_cases hki : i = k
    · rw [if_pos hki]
      exact ⟨Array.getElem_mem _, fun he => absurd (hx.inj he) (by omega)⟩
    · rw [if_neg hki]
      exact ⟨Array.getElem_mem _, fun he => hki (hx.inj he).symm⟩
  · obtain ⟨k, hk, rfl⟩ := Array.mem_iff_getElem.1 hb
    by_cases hkl : k = h.data.size - 1
    · subst hkl
      exact hlast
    · have hmem : (h.fill i hi).data[k] ∈ (h.fill i hi).data := Array.getElem_mem (by omega)
      rw [getElem_fill h hi (by omega), if_neg fun he => hne (by subst he; rfl)] at hmem
      exact hmem
  · have hne : b ≠ h.data[h.data.size - 1] := fun he => hb (he ▸ hlast)
    exact update_of_ne hne _ _
  · rw [hsize] at hk
    rw [getElem_fill h hi hk]
    by_cases hki : i = k
    · subst hki
      rw [if_pos rfl]
      exact update_self ..
    · rw [if_neg hki]
      have hne : h.data[k] ≠ h.data[h.data.size - 1] := fun he => absurd (hx.inj he) (by omega)
      exact (update_of_ne hne _ _).trans (hx k (by omega))

omit [DecidableEq α] in
theorem removed_pop_data (hx : h.Indexed) (h0 : 0 < h.data.size) :
    Removed h h.data[h.data.size - 1] { h with data := h.data.pop } := by
  refine ⟨fun b => ⟨fun hb => ?_, fun ⟨hb, hne⟩ => ?_⟩, fun b _ => rfl, fun k hk => ?_, ?_⟩
  · obtain ⟨k, hk, rfl⟩ := Array.mem_iff_getElem.1 hb
    rw [Array.size_pop] at hk
    rw [Array.getElem_pop]
    exact ⟨Array.getElem_mem _, fun he => absurd (hx.inj he) (by omega)⟩
  · obtain ⟨k, hk, rfl⟩ := Array.mem_iff_getElem.1 hb
    have hkl : k < h.data.pop.size := by
      rw [Array.size_pop]
      by_contra hge
      obtain rfl : k = h.data.size - 1 := by omega
      exact hne rfl
    have hmem := Array.getElem_mem hkl
    rwa [Array.getElem_pop] at hmem
  · rw [Array.getElem_pop]
    exact hx k _
  · rw [Array.size_pop]
    omega

omit [DecidableEq α] in
theorem Removed.same {h' h'' : IndexedHeap α} {a : α} (hr : Removed h a h') (hs : Same h' h'') :
    Removed h a h'' where
  mem b := (hs.mem b).trans (hr.mem b)
  frame b hb := by
    have hb' : b ∉ h'.data := fun hm => hb ((hs.mem b).2 hm)
    exact (hs.frame b hb').trans (hr.frame b hb')
  indexed := hs.indexed hr.indexed
  size := by
    rw [hs.size]
    exact hr.size

theorem removed_removeAt (lt : α → α → Bool) (hx : h.Indexed) (hi : i < h.data.size) :
    Removed h h.data[i] (h.removeAt lt i) := by
  rw [removeAt]
  by_cases hlt : i < h.data.size - 1
  · rw [dif_pos hlt]
    exact (removed_fill hx hlt).same ((same_siftUp ..).trans (same_siftDown ..))
  · obtain rfl : i = h.data.size - 1 := by omega
    rw [dif_neg hlt, if_pos hi]
    exact removed_pop_data hx (by omega)

theorem removed_pop (lt : α → α → Bool) (hx : h.Indexed) (h0 : 0 < h.data.size) :
    Removed h h.data[0] (h.pop lt) := by
  rw [pop]
  by_cases hlt : 0 < h.data.size - 1
  · rw [dif_pos hlt]
    exact (removed_fill hx hlt).same (same_siftDown ..)
  · rw [dif_neg hlt]
    have hone : h.data.size - 1 = 0 := by omega
    have hr := removed_pop_data hx h0
    simp only [hone] at hr
    exact hr

end IndexedHeap

end Libx.Core
