import Mathlib

/-!
# Libx.Core.Flushed — a list whose first entries are in a log

A writer keeps a list and appends its entries to a log now and then; a number `p` says how many of
the first ones the log has.  Entries are told apart by a key; `rel x y` says that `x` is what has
become of the logged entry `y`.
-/

namespace Libx.Core

open List

universe u v

variable {α : Type u} {κ : Type v} {key : α → κ} {rel : α → α → Prop} {log h : List α} {p : ℕ}

/-- The first `p` entries of `h` are in the log and the others are not. -/
structure Flushed (key : α → κ) (rel : α → α → Prop) (log h : List α) (p : ℕ) : Prop where
  bound : p ≤ h.length
  distinct : (h.map key).Nodup
  pre : ∀ x ∈ h.take p, ∃ y ∈ log, key y = key x ∧ rel x y
  post : ∀ x ∈ h.drop p, ∀ y ∈ log, key y ≠ key x

namespace Flushed

theorem mem_iff (hf : Flushed key rel log h p) {i : ℕ} {x : α} (hx : h[i]? = some x) :
    (∃ y ∈ log, key y = key x) ↔ i < p := by
  constructor
  · rintro ⟨y, hy, hk⟩
    by_contra hi
    have hmem : x ∈ h.drop p := by
      rw [mem_iff_getElem?]
      refine ⟨i - p, ?_⟩
      rw [List.getElem?_drop, show p + (i - p) = i by omega]
      exact hx
    exact hf.post x hmem y hy hk
  · intro hi
    have hmem : x ∈ h.take p := by
      rw [mem_iff_getElem?]
      exact ⟨i, by rw [List.getElem?_take_of_lt hi]; exact hx⟩
    obtain ⟨y, hy, hk, -⟩ := hf.pre x hmem
    exact ⟨y, hy, hk⟩

theorem logged (hf : Flushed key rel log h p) {i : ℕ} {x : α} (hx : h[i]? = some x) (hi : i < p) :
    ∃ y ∈ log, key y = key x ∧ rel x y := by
  refine hf.pre x ?_
  rw [mem_iff_getElem?]
  exact ⟨i, by rw [List.getElem?_take_of_lt hi]; exact hx⟩

theorem of_log (hrel : ∀ x, rel x x) (hsub : ∀ x ∈ h, x ∈ log) (hd : (h.map key).Nodup) :
    Flushed key rel log h h.length := by
  refine ⟨Nat.le_refl _, hd, ?_, ?_⟩
  · intro x hx
    exact ⟨x, hsub x (mem_of_mem_take hx), rfl, hrel x⟩
  · intro x hx
    exact absurd hx (by simp)

theorem map (hf : Flushed key rel log h p) {g : α → α} (hkey : ∀ x, key (g x) = key x)
    (hrel : ∀ x y, rel x y → rel (g x) y) : Flushed key rel log (h.map g) p := by
  have hmap : (h.map g).map key = h.map key := by
    rw [map_map]
    exact map_congr_left (fun x _ => hkey x)
  refine ⟨by rw [length_map]; exact hf.bound, by rw [hmap]; exact hf.distinct, ?_, ?_⟩
  · intro x hx
    rw [← map_take] at hx
    obtain ⟨x', hx', rfl⟩ := mem_map.mp hx
    obtain ⟨y, hy, hk, hr⟩ := hf.pre x' hx'
    exact ⟨y, hy, hk.trans (hkey x').symm, hrel x' y hr⟩
  · intro x hx y hy
    rw [← map_drop] at hx
    obtain ⟨x', hx', rfl⟩ := mem_map.mp hx
    rw [hkey]
    exact hf.post x' hx' y hy

theorem append (hf : Flushed key rel log h p) {es : List α} (hd : (es.map key).Nodup)
    (hh : ∀ x ∈ es, ∀ y ∈ h, key y ≠ key x) (hl : ∀ x ∈ es, ∀ y ∈ log, key y ≠ key x) :
    Flushed key rel log (h ++ es) p := by
  refine ⟨?_, ?_, ?_, ?_⟩
  · rw [length_append]
    exact Nat.le_trans hf.bound (Nat.le_add_right _ _)
  · rw [map_append, nodup_append]
    refine ⟨hf.distinct, hd, ?_⟩
    intro k hk k' hk' he
    obtain ⟨y, hy, rfl⟩ := mem_map.mp hk
    obtain ⟨x, hx, rfl⟩ := mem_map.mp hk'
    exact hh x hx y hy he
  · rw [take_append_of_le_length hf.bound]
    exact hf.pre
  · rw [drop_append_of_le_length hf.bound]
    intro x hx
    rcases mem_append.mp hx with h1 | h1
    · exact hf.post x h1
    · exact hl x h1

theorem flush (hf : Flushed key rel log h p) (hlog : (log.map key).Nodup) :
    ((log ++ h.drop p).map key).Nodup := by
  rw [map_append, nodup_append]
  refine ⟨hlog, ?_, ?_⟩
  · rw [map_drop]
    exact hf.distinct.sublist (drop_sublist _ _)
  · intro k hk k' hk' he
    obtain ⟨y, hy, rfl⟩ := mem_map.mp hk
    obtain ⟨x, hx, rfl⟩ := mem_map.mp hk'
    exact hf.post x hx y hy he

/-! ### Splicing -/

section Splice

variable {a b : ℕ} {z : α}

/-- The list a range of which is replaced by one entry. -/
def splice (h : List α) (a b : ℕ) (z : α) : List α := h.take a ++ z :: h.drop b

/-- The log after what it lacks of the range, and the new entry, are written. -/
def spliceLog (log h : List α) (p b : ℕ) (z : α) : List α := log ++ (h.drop p).take (b - p) ++ [z]

theorem mem_spliceLog {y : α} :
    y ∈ spliceLog log h p b z ↔ y ∈ log ∨ y ∈ (h.drop p).take (b - p) ∨ y = z := by
  simp [spliceLog]

theorem splice_log (hf : Flushed key rel log h p) (hlog : (log.map key).Nodup)
    (hz : ∀ y ∈ log ++ h, key y ≠ key z) : ((spliceLog log h p b z).map key).Nodup := by
  rw [spliceLog, map_append, nodup_append]
  refine ⟨?_, by simp, ?_⟩
  · have hsub : (log ++ (h.drop p).take (b - p)).Sublist (log ++ h.drop p) :=
      (List.Sublist.refl log).append (take_sublist _ _)
    exact (hf.flush hlog).sublist (hsub.map key)
  · intro k hk k' hk' he
    obtain ⟨y, hy, rfl⟩ := mem_map.mp hk
    obtain ⟨x, hx, rfl⟩ := mem_map.mp hk'
    rw [mem_singleton] at hx
    subst hx
    refine hz y ?_ he
    rcases mem_append.mp hy with h1 | h1
    · exact mem_append_left _ h1
    · exact mem_append_right _ (mem_of_mem_drop (mem_of_mem_take h1))

/-- **A range around `p` is logged and replaced**: the log has the entries before the range and the
new one, and nothing behind it. -/
theorem spliced (hf : Flushed key rel log h p) (hrel : ∀ x, rel x x) (hap : a ≤ p) (hpb : p ≤ b)
    (hb : b ≤ h.length) (hz : ∀ y ∈ log ++ h, key y ≠ key z) :
    Flushed key rel (spliceLog log h p b z) (splice h a b z) (a + 1) := by
  have hlen : (h.take a).length = a := length_take_of_le (by omega)
  have hsub : (h.take a ++ h.drop b).Sublist h := by
    conv_rhs => rw [← take_append_drop a h]
    refine (List.Sublist.refl _).append ?_
    rw [show b = a + (b - a) by omega, ← drop_drop]
    exact drop_sublist _ _
  have htake : (splice h a b z).take (a + 1) = h.take a ++ [z] := by
    rw [splice, take_append, hlen, take_of_length_le (by omega)]
    simp
  have hdrop : (splice h a b z).drop (a + 1) = h.drop b := by
    rw [splice, drop_append, hlen, drop_of_length_le (by omega)]
    simp
  refine ⟨?_, ?_, ?_, ?_⟩
  · rw [splice, length_append, hlen, length_cons]
    omega
  · rw [splice, map_append, map_cons]
    refine nodup_middle.mpr (nodup_cons.mpr ⟨?_, ?_⟩)
    · rw [← map_append]
      intro hm
      obtain ⟨y, hy, hk⟩ := mem_map.mp hm
      exact hz y (mem_append_right _ (hsub.subset hy)) hk
    · rw [← map_append]
      exact hf.distinct.sublist (hsub.map key)
  · rw [htake]
    intro x hx
    rcases mem_append.mp hx with h1 | h1
    · have hx' : x ∈ h.take p := take_subset_take_left _ hap h1
      obtain ⟨y, hy, hk⟩ := hf.pre x hx'
      exact ⟨y, mem_spliceLog.mpr (.inl hy), hk⟩
    · rw [mem_singleton] at h1
      subst h1
      exact ⟨x, mem_spliceLog.mpr (.inr (.inr rfl)), rfl, hrel x⟩
  · rw [hdrop]
    intro x hx y hy hk
    have hxp : x ∈ h.drop p := by
      rw [show b = p + (b - p) by omega, ← drop_drop] at hx
      exact mem_of_mem_drop hx
    rcases mem_spliceLog.mp hy with h1 | h1 | h1
    · exact hf.post x hxp y h1 hk
    · -- an entry of the range is not one behind it
      have hnd : (((h.drop p).take (b - p)).map key ++ ((h.drop p).drop (b - p)).map key).Nodup := by
        rw [← map_append, take_append_drop, map_drop]
        exact hf.distinct.sublist (drop_sublist _ _)
      have hx' : x ∈ (h.drop p).drop (b - p) := by
        rw [drop_drop, show p + (b - p) = b by omega]
        exact hx
      exact (nodup_append.mp hnd).2.2 _ (mem_map_of_mem h1) _ (mem_map_of_mem hx') hk
    · subst h1
      exact hz x (mem_append_right _ (mem_of_mem_drop hx)) hk.symm

theorem splice_keeps (hf : Flushed key rel log h p) (hpb : p ≤ b) {x : α} (hx : x ∈ h) :
    x ∈ splice h a b z ∨ ∃ y ∈ spliceLog log h p b z, key y = key x := by
  rw [← take_append_drop p h] at hx
  rcases mem_append.mp hx with h1 | h1
  · obtain ⟨y, hy, hk, -⟩ := hf.pre x h1
    exact .inr ⟨y, mem_spliceLog.mpr (.inl hy), hk⟩
  · rw [← take_append_drop (b - p) (h.drop p)] at h1
    rcases mem_append.mp h1 with h2 | h2
    · exact .inr ⟨x, mem_spliceLog.mpr (.inr (.inl h2)), rfl⟩
    · left
      rw [drop_drop, show p + (b - p) = b by omega] at h2
      exact mem_append_right _ (mem_cons_of_mem _ h2)

end Splice

end Flushed

end Libx.Core
