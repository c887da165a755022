import Libx.Core.IndexedHeap

/-!
# Libx.Core.HeapOrder — the order of an indexed heap

What the sifts of `IndexedHeap` do to the order, for any strict weak order on the elements.
-/

namespace Libx.Core

open List

/-- `lt` is a strict weak order. -/
structure Strict {α : Type*} (lt : α → α → Bool) : Prop where
  asymm : ∀ a b, lt a b = true → lt b a = false
  trans : ∀ a b c, lt b a = false → lt c b = false → lt c a = false

theorem Strict.irrefl {α : Type*} {lt : α → α → Bool} (hlt : Strict lt) (x : α) : lt x x = false := by
  cases hx : lt x x with
  | false => rfl
  | true => exact hx.symm.trans (hlt.asymm x x hx)

namespace IndexedHeap

variable {α : Type*} {lt : α → α → Bool} {h : IndexedHeap α} {i j k a b : ℕ}

/-- The element at `i` comes no later than the one at `j`. -/
def Le (lt : α → α → Bool) (h : IndexedHeap α) (i j : ℕ) : Prop :=
  ∀ (hi : i < h.data.size) (hj : j < h.data.size), lt h.data[j] h.data[i] = false

def Ordered (lt : α → α → Bool) (h : IndexedHeap α) : Prop := ∀ i, 0 < i → Le lt h ((i - 1) / 2) i

theorem Le.refl (hlt : Strict lt) (h : IndexedHeap α) (i : ℕ) : Le lt h i i := fun _ _ => hlt.irrefl _

theorem Le.trans (hlt : Strict lt) (h1 : Le lt h i j) (h2 : Le lt h j k) (hj : j < h.data.size) : Le lt h i k :=
  fun hi hk => hlt.trans _ _ _ (h1 hi hj) (h2 hj hk)

theorem Ordered.first (hlt : Strict lt) (ho : Ordered lt h) : ∀ i, Le lt h 0 i := by
  intro i
  induction i using Nat.strongRecOn with
  | ind i ih =>
    by_cases h0 : i = 0
    · subst h0
      exact .refl hlt h 0
    · intro hi hj
      exact Le.trans hlt (ih ((i - 1) / 2) (by omega)) (ho i (by omega)) (by omega) hi hj

/-- The pairs of a child and its parent that do not touch `k` are in order, and so are the children of `k` and its
parent. -/
structure Around (lt : α → α → Bool) (h : IndexedHeap α) (k : ℕ) : Prop where
  off : ∀ i, 0 < i → i ≠ k → (i - 1) / 2 ≠ k → Le lt h ((i - 1) / 2) i
  grand : 0 < k → ∀ c, 0 < c → (c - 1) / 2 = k → Le lt h ((k - 1) / 2) c

/-- What is at `k` may still come before its parent. -/
structure UpOrder (lt : α → α → Bool) (h : IndexedHeap α) (k : ℕ) : Prop extends Around lt h k where
  below : ∀ c, 0 < c → (c - 1) / 2 = k → Le lt h k c

/-- What is at `k` may still come after its children. -/
structure DownOrder (lt : α → α → Bool) (h : IndexedHeap α) (k : ℕ) : Prop extends Around lt h k where
  above : 0 < k → Le lt h ((k - 1) / 2) k

theorem Ordered.around (hlt : Strict lt) (ho : Ordered lt h) (hk : k < h.data.size) : Around lt h k where
  off i h0 _ _ := ho i h0
  grand h0 c hc heq := Le.trans hlt (ho k h0) (heq ▸ ho c hc) hk

theorem Ordered.down (hlt : Strict lt) (ho : Ordered lt h) (hk : k < h.data.size) : DownOrder lt h k where
  toAround := ho.around hlt hk
  above := ho k

theorem UpOrder.finish (hu : UpOrder lt h k) (hk : 0 < k → Le lt h ((k - 1) / 2) k) : Ordered lt h := by
  intro i h0
  by_cases hik : i = k
  · exact hik ▸ hk (by omega)
  by_cases hpk : (i - 1) / 2 = k
  · rw [hpk]
    exact hu.below i h0 hpk
  · exact hu.off i h0 hik hpk

theorem DownOrder.finish (hd : DownOrder lt h k) (hl : Le lt h k (2 * k + 1)) (hr : Le lt h k (2 * k + 2)) :
    Ordered lt h := by
  intro i h0
  by_cases hik : i = k
  · exact hik ▸ hd.above (by omega)
  by_cases hpk : (i - 1) / 2 = k
  · rw [hpk]
    obtain rfl | rfl : i = 2 * k + 1 ∨ i = 2 * k + 2 := by omega
    · exact hl
    · exact hr
  · exact hd.off i h0 hik hpk

variable [DecidableEq α]

theorem le_swap {hi : i < h.data.size} {hj : j < h.data.size} :
    Le lt (h.swap i j hi hj) a b ↔
      Le lt h (if a = i then j else if a = j then i else a) (if b = i then j else if b = j then i else b) := by
  have hplace : ∀ c, (if c = i then j else if c = j then i else c) < h.data.size ↔ c < h.data.size := by
    intro c
    split_ifs with h1 h2
    · subst h1
      exact ⟨fun _ => hi, fun _ => hj⟩
    · subst h2
      exact ⟨fun _ => hj, fun _ => hi⟩
    · exact Iff.rfl
  have hget : ∀ c (hc : c < (h.swap i j hi hj).data.size)
      (hc' : (if c = i then j else if c = j then i else c) < h.data.size),
      (h.swap i j hi hj).data[c] = h.data[if c = i then j else if c = j then i else c] := by
    intro c hc hc'
    refine (Array.getElem_swap ..).trans ?_
    split_ifs with h1 h2
    · rfl
    · rfl
    · rfl
  constructor
  · intro hle ha hb
    have ha' := (hplace a).1 ha
    have hb' := (hplace b).1 hb
    rw [← swap_size h hi hj] at ha' hb'
    rw [← hget a ha' ha, ← hget b hb' hb]
    exact hle ha' hb'
  · intro hle ha hb
    rw [swap_size] at ha hb
    have ha' := (hplace a).2 ha
    have hb' := (hplace b).2 hb
    rw [hget a _ ha', hget b _ hb']
    exact hle ha' hb'

/-! ### Going up -/

theorem Around.move (hlt : Strict lt) (ha : Around lt h k) (h0 : 0 < k) (hk : k < h.data.size)
    (hb : lt h.data[k] h.data[(k - 1) / 2] = true) :
    UpOrder lt (h.swap k ((k - 1) / 2) hk (by omega)) ((k - 1) / 2) := by
  have hkp : Le lt h k ((k - 1) / 2) := fun _ _ => hlt.asymm _ _ hb
  -- a sibling of `k` comes after the parent, and so after `k`
  have hsib : ∀ c, 0 < c → (c - 1) / 2 = (k - 1) / 2 → c ≠ k → Le lt h ((k - 1) / 2) c := by
    intro c hc hpc hck
    have := ha.off c hc hck (by omega)
    rwa [hpc] at this
  refine ⟨⟨fun i hi hip hpp => ?_, fun hp c hc hpc => ?_⟩, fun c hc hpc => ?_⟩
  · by_cases hik : i = k
    · exact absurd (by rw [hik]) hpp
    rw [le_swap, if_neg hik, if_neg hip]
    by_cases hpk : (i - 1) / 2 = k
    · rw [if_pos hpk]
      exact ha.grand h0 i hi hpk
    · rw [if_neg hpk, if_neg hpp]
      exact ha.off i hi hik hpk
  · have hup : Le lt h (((k - 1) / 2 - 1) / 2) ((k - 1) / 2) := ha.off _ hp (by omega) (by omega)
    rw [le_swap, if_neg (by omega), if_neg (by omega)]
    by_cases hck : c = k
    · rw [if_pos hck]
      exact hup
    · rw [if_neg hck, if_neg (by omega)]
      exact Le.trans hlt hup (hsib c hc hpc hck) (by omega)
  · rw [le_swap, if_neg (by omega), if_pos rfl]
    by_cases hck : c = k
    · rw [if_pos hck]
      exact hkp
    · rw [if_neg hck, if_neg (by omega)]
      exact Le.trans hlt hkp (hsib c hc hpc hck) (by omega)

theorem ordered_siftUp (hlt : Strict lt) (h : IndexedHeap α) (i : ℕ) (hi : i < h.data.size) (hu : UpOrder lt h i) :
    Ordered lt (siftUp lt h i hi) := by
  fun_induction siftUp lt h i hi with
  | case1 h i hi h0 hb ih => exact ih (hu.move hlt h0 hi hb)
  | case2 h i hi h0 hb => exact hu.finish fun _ _ _ => by simpa using hb
  | case3 h i hi h0 => exact hu.finish fun hpos => absurd hpos h0

theorem down_siftUp (hlt : Strict lt) {hk : k < h.data.size} (ha : Around lt h k) :
    DownOrder lt (siftUp lt h k hk) k := by
  unfold siftUp
  split_ifs with h0 hb
  · have ho := ordered_siftUp hlt _ ((k - 1) / 2) (by rw [swap_size]; omega) (ha.move hlt h0 hk hb)
    exact ho.down hlt (by rw [(same_siftUp ..).size, swap_size]; exact hk)
  · exact ⟨ha, fun _ _ _ => by simpa using hb⟩
  · exact ⟨ha, fun hpos => absurd hpos h0⟩

/-! ### Going down -/

omit [DecidableEq α] in
theorem smallest_spec (hlt : Strict lt) (h : IndexedHeap α) (k : ℕ) (hk : k < h.data.size) :
    ((smallest lt h k hk).1 = k ∨ (smallest lt h k hk).1 = 2 * k + 1 ∨ (smallest lt h k hk).1 = 2 * k + 2) ∧
      Le lt h (smallest lt h k hk).1 k ∧ Le lt h (smallest lt h k hk).1 (2 * k + 1) ∧
        Le lt h (smallest lt h k hk).1 (2 * k + 2) := by
  have hyes : ∀ {c l : ℕ} {hc : c < h.data.size} {hl : l < h.data.size},
      lt h.data[c] h.data[l] = true → Le lt h c l := fun hb _ _ => hlt.asymm _ _ hb
  have hno : ∀ {c l : ℕ} {hc : c < h.data.size} {hl : l < h.data.size},
      ¬lt h.data[c] h.data[l] = true → Le lt h l c := fun hb _ _ => by simpa using hb
  have hout : ∀ {c l : ℕ}, ¬c < h.data.size → Le lt h l c := fun hc _ hc' => absurd hc' hc
  have hself := Le.refl hlt h
  by_cases hl : 2 * k + 1 < h.data.size
  swap
  · have hval : (smallest lt h k hk).1 = k := by
      simp only [smallest, dif_neg hl, dif_neg (show ¬2 * k + 2 < h.data.size by omega)]
    rw [hval]
    exact ⟨.inl rfl, hself _, hout hl, hout (by omega)⟩
  by_cases h1 : lt h.data[2 * k + 1] h.data[k] = true
  · by_cases hr : 2 * k + 2 < h.data.size
    · by_cases h2 : lt h.data[2 * k + 2] h.data[2 * k + 1] = true
      · have hval : (smallest lt h k hk).1 = 2 * k + 2 := by
          simp only [smallest, dif_pos hl, if_pos h1, dif_pos hr, if_pos h2]
        rw [hval]
        exact ⟨.inr (.inr rfl), Le.trans hlt (hyes h2) (hyes h1) hl, hyes h2, hself _⟩
      · have hval : (smallest lt h k hk).1 = 2 * k + 1 := by
          simp only [smallest, dif_pos hl, if_pos h1, dif_pos hr, if_neg h2]
        rw [hval]
        exact ⟨.inr (.inl rfl), hyes h1, hself _, hno h2⟩
    · have hval : (smallest lt h k hk).1 = 2 * k + 1 := by
        simp only [smallest, dif_pos hl, if_pos h1, dif_neg hr]
      rw [hval]
      exact ⟨.inr (.inl rfl), hyes h1, hself _, hout hr⟩
  · by_cases hr : 2 * k + 2 < h.data.size
    · by_cases h2 : lt h.data[2 * k + 2] h.data[k] = true
      · have hval : (smallest lt h k hk).1 = 2 * k + 2 := by
          simp only [smallest, dif_pos hl, if_neg h1, dif_pos hr, if_pos h2]
        rw [hval]
        exact ⟨.inr (.inr rfl), hyes h2, Le.trans hlt (hyes h2) (hno h1) hk, hself _⟩
      · have hval : (smallest lt h k hk).1 = k := by
          simp only [smallest, dif_pos hl, if_neg h1, dif_pos hr, if_neg h2]
        rw [hval]
        exact ⟨.inl rfl, hself _, hno h1, hno h2⟩
    · have hval : (smallest lt h k hk).1 = k := by
        simp only [smallest, dif_pos hl, if_neg h1, dif_neg hr]
      rw [hval]
      exact ⟨.inl rfl, hself _, hno h1, hout hr⟩

theorem DownOrder.move (hd : DownOrder lt h k) (hk : k < h.data.size) (hj : j < h.data.size)
    (hc : j = 2 * k + 1 ∨ j = 2 * k + 2) (hle : Le lt h j k) (hl : Le lt h j (2 * k + 1))
    (hr : Le lt h j (2 * k + 2)) : DownOrder lt (h.swap k j hk hj) j := by
  refine ⟨⟨fun i hi hij hpj => ?_, fun h0 c hc' hpc => ?_⟩, fun h0 => ?_⟩
  · by_cases hik : i = k
    · rw [le_swap, if_pos hik, if_neg (by omega), if_neg hpj, hik]
      exact hd.grand (by omega) j (by omega) (by omega)
    by_cases hpk : (i - 1) / 2 = k
    · rw [le_swap, if_pos hpk, if_neg hik, if_neg hij]
      obtain rfl | rfl : i = 2 * k + 1 ∨ i = 2 * k + 2 := by omega
      · exact hl
      · exact hr
    · rw [le_swap, if_neg hpk, if_neg hpj, if_neg hik, if_neg hij]
      exact hd.off i hi hik hpk
  · have hpk : (j - 1) / 2 = k := by omega
    rw [le_swap, if_pos hpk, if_neg (by omega), if_neg (by omega)]
    have := hd.off c hc' (by omega) (by omega)
    rwa [hpc] at this
  · have hpk : (j - 1) / 2 = k := by omega
    rw [le_swap, if_pos hpk, if_neg (by omega), if_pos rfl]
    exact hle

theorem ordered_siftDown (hlt : Strict lt) (h : IndexedHeap α) (i : ℕ) (hi : i < h.data.size)
    (hd : DownOrder lt h i) : Ordered lt (siftDown lt h i hi) := by
  fun_induction siftDown lt h i hi with
  | case1 h i hi heq =>
    obtain ⟨-, -, hl, hr⟩ := smallest_spec hlt h i hi
    rw [heq] at hl hr
    exact hd.finish hl hr
  | case2 h i hi hne ih =>
    obtain ⟨hc, hle, hl, hr⟩ := smallest_spec hlt h i hi
    exact ih (hd.move hi _ (hc.resolve_left hne) hle hl hr)

/-! ### The operations keep the order -/

theorem ordered_push (hlt : Strict lt) (ho : Ordered lt h) (x : α) : Ordered lt (h.push lt x) := by
  refine ordered_siftUp hlt _ _ _ ⟨⟨fun i h0 hik hpk => ?_, fun _ c h0 hpc => ?_⟩, fun c h0 hpc => ?_⟩
  · intro hp hi
    have hi' : i < h.data.size := by
      rw [Array.size_push] at hi
      omega
    rw [Array.getElem_push_lt hi', Array.getElem_push_lt (by omega)]
    exact ho i h0 _ hi'
  all_goals
    intro _ hc
    rw [Array.size_push] at hc
    omega

theorem Ordered.fill (hlt : Strict lt) (ho : Ordered lt h) (hi : i < h.data.size - 1) : Around lt (h.fill i hi) i := by
  have hle : ∀ {a b : ℕ}, a ≠ i → b ≠ i → Le lt h a b → Le lt (h.fill i hi) a b := by
    intro a b ha hb hab hsa hsb
    have hsa' := hsa
    have hsb' := hsb
    rw [fill_size] at hsa' hsb'
    rw [getElem_fill h hi hsa', getElem_fill h hi hsb', if_neg ha.symm, if_neg hb.symm]
    exact hab _ _
  refine ⟨fun c h0 hci hpi => hle hpi hci (ho c h0), fun h0 c hc hpc => ?_⟩
  have hpar := ho c hc
  rw [hpc] at hpar
  exact hle (by omega) (by omega) (Le.trans hlt (ho i h0) hpar (by omega))

omit [DecidableEq α] in
theorem Ordered.pop_data (ho : Ordered lt h) : Ordered lt { h with data := h.data.pop } := by
  intro i h0 hp hi
  rw [Array.getElem_pop, Array.getElem_pop]
  exact ho i h0 _ _

theorem ordered_pop (hlt : Strict lt) (ho : Ordered lt h) : Ordered lt (h.pop lt) := by
  unfold pop
  split_ifs with hi
  · exact ordered_siftDown hlt _ _ _ ⟨ho.fill hlt hi, fun h0 => absurd h0 (Nat.lt_irrefl 0)⟩
  · exact ho.pop_data

theorem ordered_removeAt (hlt : Strict lt) (ho : Ordered lt h) (i : ℕ) : Ordered lt (h.removeAt lt i) := by
  unfold removeAt
  split_ifs with hi hlast
  · exact ordered_siftDown hlt _ _ _ (down_siftUp hlt (ho.fill hlt hi))
  · exact ho.pop_data
  · exact ho

/-- What is at `i` has changed: it goes up or down to where it belongs. -/
def update (lt : α → α → Bool) (h : IndexedHeap α) (i : ℕ) : IndexedHeap α :=
  if hi : i < h.data.size then
    siftDown lt (siftUp lt h i hi) i (by rw [(same_siftUp ..).size]; exact hi)
  else h

theorem ordered_update (hlt : Strict lt) (ha : Around lt h i) (hi : i < h.data.size) : Ordered lt (h.update lt i) := by
  unfold update
  rw [dif_pos hi]
  exact ordered_siftDown hlt _ _ _ (down_siftUp hlt ha)

theorem same_update (lt : α → α → Bool) (h : IndexedHeap α) (i : ℕ) : Same h (h.update lt i) := by
  unfold update
  split_ifs
  · exact (same_siftUp ..).trans (same_siftDown ..)
  · exact .refl h

omit [DecidableEq α] in
theorem Ordered.change {lt' : α → α → Bool} (hlt : Strict lt) (ho : Ordered lt h) (hi : i < h.data.size)
    (heq : ∀ (a b : ℕ) (ha : a < h.data.size) (hb : b < h.data.size), a ≠ i → b ≠ i →
      lt' h.data[b] h.data[a] = lt h.data[b] h.data[a]) : Around lt' h i := by
  have hle : ∀ {a b : ℕ}, a ≠ i → b ≠ i → Le lt h a b → Le lt' h a b :=
    fun ha hb hab hsa hsb => (heq _ _ hsa hsb ha hb).trans (hab hsa hsb)
  have har := ho.around hlt hi
  exact ⟨fun c h0 hci hpi => hle hpi hci (har.off c h0 hci hpi),
    fun h0 c hc hpc => hle (by omega) (by omega) (har.grand h0 c hc hpc)⟩

/-! ### What the operations hold -/

theorem perm_siftUp (lt : α → α → Bool) (h : IndexedHeap α) (i : ℕ) (hi : i < h.data.size) :
    (siftUp lt h i hi).data.Perm h.data := by
  fun_induction siftUp lt h i hi with
  | case1 h i hi h0 hb ih => exact ih.trans (Array.swap_perm _ _)
  | case2 h i => exact .rfl
  | case3 h i => exact .rfl

theorem perm_siftDown (lt : α → α → Bool) (h : IndexedHeap α) (i : ℕ) (hi : i < h.data.size) :
    (siftDown lt h i hi).data.Perm h.data := by
  fun_induction siftDown lt h i hi with
  | case1 h i hi heq => exact .rfl
  | case2 h i hi hne ih => exact ih.trans (Array.swap_perm _ _)

theorem perm_push (lt : α → α → Bool) (h : IndexedHeap α) (x : α) :
    (h.push lt x).data.toList.Perm (x :: h.data.toList) := by
  refine (perm_siftUp ..).toList.trans ?_
  rw [Array.toList_push]
  exact perm_append_singleton x h.data.toList

omit [DecidableEq α] in
theorem perm_pop_data (h : IndexedHeap α) (h0 : h.data.size - 1 < h.data.size) :
    (h.data[h.data.size - 1] :: h.data.pop.toList).Perm h.data.toList := by
  have hne : h.data.toList ≠ [] := ne_nil_of_length_pos (by rw [Array.length_toList]; omega)
  have hsplit : h.data.toList = h.data.pop.toList ++ [h.data[h.data.size - 1]] := by
    rw [Array.toList_pop]
    refine (dropLast_append_getLast hne).symm.trans ?_
    rw [getLast_eq_getElem]
    simp
  rw [hsplit]
  exact (perm_append_singleton _ _).symm

theorem perm_fill (h : IndexedHeap α) (hi : i < h.data.size - 1) :
    (h.data[i] :: (h.fill i hi).data.toList).Perm h.data.toList := by
  -- without its last element the array has that one in the place of the one at `i`
  have hpop : i < h.data.pop.toList.length := by
    rw [Array.length_toList, Array.size_pop]
    exact hi
  have hfill : (h.fill i hi).data.toList = h.data.pop.toList.set i h.data[h.data.size - 1] := by
    refine ext_getElem ?_ (fun k hk hk' => ?_)
    · rw [List.length_set, Array.length_toList, Array.length_toList, fill_size, Array.size_pop]
    · rw [Array.length_toList, fill_size] at hk
      rw [Array.getElem_toList, getElem_fill h hi hk, getElem_set, Array.getElem_toList, Array.getElem_pop]
  have hget : h.data.pop.toList[i] = h.data[i] := by
    rw [Array.getElem_toList, Array.getElem_pop]
  have h1 := set_perm_cons_eraseIdx hpop h.data[h.data.size - 1]
  have h2 := getElem_cons_eraseIdx_perm hpop
  rw [hget] at h2
  rw [hfill]
  refine (h1.cons _).trans ((List.Perm.swap _ _ _).trans ?_)
  exact (h2.cons _).trans (perm_pop_data h (by omega))

theorem perm_removeAt (lt : α → α → Bool) (h : IndexedHeap α) (hi : i < h.data.size) :
    (h.data[i] :: (h.removeAt lt i).data.toList).Perm h.data.toList := by
  unfold removeAt
  split_ifs with hlt
  · refine List.Perm.trans (.cons _ ?_) (perm_fill h hlt)
    exact ((perm_siftDown ..).trans (perm_siftUp ..)).toList
  · obtain rfl : i = h.data.size - 1 := by omega
    exact perm_pop_data h (by omega)

theorem perm_pop (lt : α → α → Bool) (h : IndexedHeap α) (h0 : 0 < h.data.size) :
    (h.data[0] :: (h.pop lt).data.toList).Perm h.data.toList := by
  unfold pop
  split_ifs with hlt
  · exact List.Perm.trans (.cons _ (perm_siftDown ..).toList) (perm_fill h hlt)
  · have hone : h.data.size - 1 = 0 := by omega
    have := perm_pop_data h (by omega)
    simp only [hone] at this
    exact this

theorem perm_update (lt : α → α → Bool) (h : IndexedHeap α) (i : ℕ) :
    (h.update lt i).data.toList.Perm h.data.toList := by
  unfold update
  split_ifs
  · exact ((perm_siftDown ..).trans (perm_siftUp ..)).toList
  · exact .rfl

end IndexedHeap

end Libx.Core
