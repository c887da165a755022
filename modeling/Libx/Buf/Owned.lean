import Libx.Buf.Blocks

/-!
# Libx.Buf.Owned — the blocks and who holds them
-/

namespace Libx.Buf.Blocks

open Libx.Agent (Bytes)
open Store List

def uses (refs : List Ref) : ℕ → ℕ := (refs.map fun r => Pi.single r.block 1).sum

@[simp] theorem uses_nil : uses [] = 0 := rfl

@[simp] theorem uses_cons (r : Ref) (refs : List Ref) : uses (r :: refs) = Pi.single r.block 1 + uses refs := by
  simp [uses]

@[simp] theorem uses_append (a b : List Ref) : uses (a ++ b) = uses a + uses b := by simp [uses]

theorem uses_apply (refs : List Ref) (b : ℕ) : uses refs b = refs.countP fun r => r.block = b := by
  induction refs with
  | nil => rfl
  | cons r refs ih =>
    rw [uses_cons, Pi.add_apply, ih, countP_cons]
    by_cases h : r.block = b
    · subst h
      simp [Nat.add_comm]
    · rw [Pi.single_eq_of_ne' h]
      simp [h]

variable {refs : List Ref}

theorem uses_ne_zero {r : Ref} (h : r ∈ refs) : uses refs r.block ≠ 0 := by
  rw [uses_apply]
  exact Nat.ne_of_gt (countP_pos_iff.mpr ⟨r, h, by simp⟩)

/-- The blocks are held `u` times, and those of them that nobody holds are in the pool. -/
structure Owned (s : Store) (u : ℕ → ℕ) : Prop where
  count : s.count = u
  nodup : s.pool.Nodup
  pool : ∀ b, b ∈ s.pool ↔ b < s.fresh ∧ u b = 0
  fresh : ∀ b, s.fresh ≤ b → u b = 0

namespace Owned

variable {s t : Store} {u : ℕ → ℕ} {b : ℕ}

theorem congr (h : Owned s u) (hcount : t.count = s.count) (hpool : t.pool = s.pool) (hfresh : t.fresh = s.fresh) :
    Owned t u := by
  constructor
  · rw [hcount, h.count]
  · rw [hpool]
    exact h.nodup
  · rw [hpool, hfresh]
    exact h.pool
  · rw [hfresh]
    exact h.fresh

theorem write (h : Owned s u) (b off : ℕ) (bytes : Bytes) : Owned (s.write b off bytes) u := h.congr rfl rfl rfl

theorem malloc (h : Owned s u) : Owned s.malloc.2 u := h.congr rfl rfl rfl

theorem lt_fresh (h : Owned s u) (hb : u b ≠ 0) : b < s.fresh := by
  by_contra hge
  exact hb (h.fresh b (by omega))

theorem retain (h : Owned s u) (hb : u b ≠ 0) : Owned (s.retain b) (u + Pi.single b 1) := by
  have hzero (c : ℕ) : (u + Pi.single b 1 : ℕ → ℕ) c = 0 ↔ u c = 0 := by
    by_cases hc : c = b
    · subst hc
      simp [hb]
    · simp [hc]
  constructor
  · funext c
    by_cases hc : c = b
    · subst hc
      simp [Store.retain, h.count]
    · simp [Store.retain, h.count, hc]
  · exact h.nodup
  · intro c
    rw [hzero]
    exact h.pool c
  · intro c hc
    rw [hzero]
    exact h.fresh c hc

theorem release (h : Owned s (u + Pi.single b 1)) : Owned (s.release b) u := by
  have hlt : b < s.fresh := h.lt_fresh (by simp)
  have hcount : s.count b - 1 = u b := by rw [h.count]; simp
  have hne {c : ℕ} (hc : c ≠ b) : (u + Pi.single b 1 : ℕ → ℕ) c = u c := by simp [hc]
  have hnot : b ∉ s.pool := fun hmem => by
    have := ((h.pool b).mp hmem).2
    simp at this
  have hmem (c : ℕ) : c ∈ (s.release b).pool ↔ c ∈ s.pool ∨ c = b ∧ u b = 0 := by
    unfold Store.release
    rw [hcount]
    split
    next hz => simp [hz, or_comm]
    next hz => simp [hz]
  constructor
  · funext c
    by_cases hc : c = b
    · subst hc
      simpa [Store.release] using hcount
    · simp [Store.release, h.count, hc]
  · unfold Store.release
    split
    next => exact nodup_cons.mpr ⟨hnot, h.nodup⟩
    next => exact h.nodup
  · intro c
    rw [hmem, h.pool]
    by_cases hc : c = b
    · subst hc
      simp [Store.release, hlt]
    · simp [Store.release, hc]
  · intro c hc
    have hcb : c ≠ b := by
      rintro rfl
      exact absurd hlt (Nat.not_lt.mpr hc)
    rw [← hne hcb]
    exact h.fresh c hc

theorem acquire (h : Owned s u) {t : Store} (hs : s.acquire = (some b, t)) :
    u b = 0 ∧ Owned t (u + Pi.single b 1) ∧ t.data = s.data ∧ t.mem ⊆ s.mem := by
  have hcount (hb : u b = 0) : Function.update s.count b 1 = u + Pi.single b 1 := by
    funext c
    by_cases hc : c = b
    · subst hc
      simp [hb]
    · simp [h.count, hc]
  have hadd (c : ℕ) : (u + Pi.single b 1 : ℕ → ℕ) c = 0 ↔ u c = 0 ∧ c ≠ b := by
    by_cases hc : c = b
    · subst hc
      simp
    · simp [hc]
  unfold Store.acquire at hs
  split at hs
  next b' pool hpool =>
    obtain ⟨rfl, rfl⟩ : b' = b ∧ _ = t := by simpa using hs
    obtain ⟨hlt, hb⟩ := (h.pool b').mp (by rw [hpool]; exact .head _)
    have hnodup := h.nodup
    rw [hpool, nodup_cons] at hnodup
    refine ⟨hb, ⟨hcount hb, hnodup.2, fun c => ?_, fun c hc => ?_⟩, rfl, List.Subset.refl _⟩
    · have hc := h.pool c
      rw [hpool, mem_cons] at hc
      rw [hadd]
      constructor
      · intro hmem
        have hcb : c ≠ b' := fun heq => hnodup.1 (heq ▸ hmem)
        exact ⟨(hc.mp (.inr hmem)).1, (hc.mp (.inr hmem)).2, hcb⟩
      · rintro ⟨hlt, hz, hne⟩
        exact (hc.mpr ⟨hlt, hz⟩).resolve_left hne
    · rw [hadd]
      refine ⟨h.fresh c hc, ?_⟩
      rintro rfl
      exact absurd hlt (Nat.not_lt.mpr hc)
  next hpool =>
    split at hs
    next hok =>
      obtain ⟨rfl, rfl⟩ : s.fresh = b ∧ _ = t := by simpa using hs
      have hb := h.fresh s.fresh le_rfl
      refine ⟨hb, ⟨hcount hb, by simp [Store.malloc, hpool], fun c => ?_, fun c hc => ?_⟩, rfl, tail_subset _⟩
      · have hc := h.pool c
        rw [hadd]
        simp only [Store.malloc, hpool, not_mem_nil, false_iff, not_and, not_not] at hc ⊢
        intro hlt hz
        by_contra hne
        exact hc (by omega) hz
      · rw [hadd]
        exact ⟨h.fresh c (Nat.le_of_succ_le hc), by dsimp only at hc; omega⟩
    next => simp at hs

theorem acquire_none (h : Owned s u) {t : Store} (hs : s.acquire = (none, t)) :
    Owned t u ∧ t.data = s.data ∧ t.mem ⊆ s.mem ∧ false ∈ s.mem := by
  unfold Store.acquire at hs
  split at hs
  next => simp at hs
  next =>
    split at hs
    next => simp at hs
    next hok =>
      obtain rfl : s.malloc.2 = t := by simpa using hs
      refine ⟨h.malloc, rfl, tail_subset _, ?_⟩
      unfold Store.malloc at hok
      cases hmem : s.mem with
      | nil => simp [hmem] at hok
      | cons ok mem => simp_all

end Owned

/-! ### The bytes of a ref -/

section Slice

variable {s t : Store} {r : Ref} {b off : ℕ} {bytes : Bytes}

@[simp] theorem length_slice (s : Store) (r : Ref) : (s.slice r).length = r.length := by simp [slice]

theorem getElem_slice {k : ℕ} (hk : k < (s.slice r).length) : (s.slice r)[k] = s.data r.block (r.offset + k) := by
  simp [slice]

theorem slice_congr (h : ∀ k < r.length, t.data r.block (r.offset + k) = s.data r.block (r.offset + k)) :
    t.slice r = s.slice r := by
  refine ext_getElem (by simp) fun k hk _ => ?_
  rw [getElem_slice, getElem_slice]
  exact h k (by simpa using hk)

theorem slice_take {n : ℕ} (hn : n ≤ r.length) : s.slice { r with length := n } = (s.slice r).take n := by
  refine ext_getElem (by simp [hn]) fun k hk _ => ?_
  rw [getElem_take, getElem_slice, getElem_slice]

theorem slice_drop (n : ℕ) :
    s.slice { r with offset := r.offset + n, length := r.length - n } = (s.slice r).drop n := by
  refine ext_getElem (by simp) fun k hk _ => ?_
  rw [getElem_drop, getElem_slice, getElem_slice, Nat.add_assoc]

/-- The ref is of another block, or does not meet what is written. -/
def Apart (b off n : ℕ) (r : Ref) : Prop := n = 0 ∨ r.block ≠ b ∨ r.offset + r.length ≤ off ∨ off + n ≤ r.offset

instance (b off n : ℕ) (r : Ref) : Decidable (Apart b off n r) := inferInstanceAs (Decidable (_ ∨ _))

theorem slice_write (h : Apart b off bytes.length r) : (s.write b off bytes).slice r = s.slice r := by
  refine slice_congr fun k hk => ?_
  unfold Store.write
  dsimp only
  split
  next hin =>
    obtain ⟨hb, hoff⟩ := hin
    have hout : bytes.length ≤ r.offset + k - off := by
      rcases h with h | h | h | h
      · omega
      · exact absurd hb h
      · omega
      · omega
    rw [getD_eq_default _ _ hout]
  next => rfl

theorem slice_write_behind (s : Store) (r : Ref) (bytes : Bytes) :
    (s.write r.block (r.offset + r.length) bytes).slice { r with length := r.length + bytes.length } =
      s.slice r ++ bytes := by
  refine ext_getElem (by simp) fun k hk _ => ?_
  rw [getElem_slice, getElem_append]
  unfold Store.write
  dsimp only
  by_cases hlt : k < r.length
  · rw [if_neg (by omega), dif_pos (by simpa using hlt), getElem_slice]
  · have hk' : k - r.length < bytes.length := by
      simp only [length_slice] at hk
      omega
    rw [if_pos ⟨rfl, by omega⟩, dif_neg (by simpa using hlt), Nat.add_sub_add_left, getD_eq_getElem _ _ hk']
    simp

theorem slice_write_new (s : Store) (b : ℕ) (bytes : Bytes) :
    (s.write b 0 bytes).slice ⟨b, 0, bytes.length⟩ = bytes := by
  have h := slice_write_behind s ⟨b, 0, 0⟩ bytes
  simpa [slice] using h

@[simp] theorem bytesOf_nil (s : Store) : s.bytesOf [] = [] := rfl

@[simp] theorem bytesOf_cons (s : Store) (r : Ref) (refs : List Ref) :
    s.bytesOf (r :: refs) = s.slice r ++ s.bytesOf refs := flatMap_cons

theorem bytesOf_append (s : Store) (a b : List Ref) : s.bytesOf (a ++ b) = s.bytesOf a ++ s.bytesOf b :=
  flatMap_append

theorem length_bytesOf (s : Store) (refs : List Ref) : (s.bytesOf refs).length = (refs.map Ref.length).sum := by
  induction refs with
  | nil => rfl
  | cons r refs ih => simp [ih]

theorem bytesOf_congr (h : ∀ r ∈ refs, t.slice r = s.slice r) : t.bytesOf refs = s.bytesOf refs := by
  rw [bytesOf, bytesOf, flatMap_def, flatMap_def, map_congr_left h]

theorem bytesOf_of_data (h : t.data = s.data) : t.bytesOf refs = s.bytesOf refs :=
  bytesOf_congr fun _ _ => slice_congr fun _ _ => by rw [h]

end Slice

end Libx.Buf.Blocks
