import Mathlib

/-!
# Libx.Core.Assoc — finite maps whose keys are compared by an equivalence
-/

namespace Libx.Core

open List

variable {K V : Type*}

def assign (eq : K → K → Bool) (m : K → Option V) (key : K) (val : V) : K → Option V :=
  fun k => if eq key k then some val else m k

def unassign (eq : K → K → Bool) (m : K → Option V) (key : K) : K → Option V :=
  fun k => if eq key k then none else m k

/-- The list has each key of the map exactly once, with its value. -/
structure Lists (eq : K → K → Bool) (l : List (K × V)) (m : K → Option V) : Prop where
  distinct : l.Pairwise fun a b => eq a.1 b.1 = false
  get : ∀ k v, m k = some v ↔ ∃ e ∈ l, eq e.1 k = true ∧ e.2 = v

namespace Lists

variable {eq : K → K → Bool} {l l' l₁ l₂ : List (K × V)} {m : K → Option V} {k key : K} {v val : V}

theorem nil : Lists eq ([] : List (K × V)) fun _ => none :=
  ⟨.nil, fun _ _ => ⟨nofun, fun ⟨_, h, _⟩ => absurd h not_mem_nil⟩⟩

theorem get_of_mem (h : Lists eq l m) {e : K × V} (he : e ∈ l) (hk : eq e.1 k = true) : m k = some e.2 :=
  (h.get k e.2).2 ⟨e, he, hk, rfl⟩

theorem get_none (h : Lists eq l m) (hk : ∀ e ∈ l, eq e.1 k = false) : m k = none := by
  cases hm : m k with
  | none => rfl
  | some v =>
    obtain ⟨e, he, hek, -⟩ := (h.get k v).1 hm
    rw [hk e he] at hek
    cases hek

variable (heq : Equivalence fun a b => eq a b = true)
include heq

theorem eq_comm (a b : K) : eq a b = eq b a :=
  Bool.eq_iff_iff.2 ⟨heq.symm, heq.symm⟩

theorem perm (h : Lists eq l m) (hp : l.Perm l') : Lists eq l' m := by
  refine ⟨(hp.pairwise_iff fun hab => ?_).1 h.distinct, fun k v => (h.get k v).trans ?_⟩
  · rw [eq_comm heq]
    exact hab
  · exact exists_congr fun e => and_congr_left' hp.mem_iff

theorem cons (h : Lists eq l m) (hno : ∀ e ∈ l, eq e.1 key = false) (val : V) :
    Lists eq ((key, val) :: l) (assign eq m key val) := by
  refine ⟨pairwise_cons.2 ⟨fun e he => ?_, h.distinct⟩, fun k v => ?_⟩
  · rw [eq_comm heq]
    exact hno e he
  · rw [assign]
    constructor
    · split
      · next hk =>
        rintro ⟨⟩
        exact ⟨_, mem_cons_self, hk, rfl⟩
      · intro hm
        obtain ⟨e, he, hek⟩ := (h.get k v).1 hm
        exact ⟨e, mem_cons_of_mem _ he, hek⟩
    · rintro ⟨e, he, hek, rfl⟩
      obtain rfl | he := mem_cons.1 he
      · rw [if_pos hek]
      · rw [if_neg, h.get_of_mem he hek]
        intro hk
        have := heq.trans hek (heq.symm hk)
        rw [hno e he] at this
        cases this

theorem remove (h : Lists eq (l₁ ++ (k, v) :: l₂) m) (hk : eq k key = true) :
    Lists eq (l₁ ++ l₂) (unassign eq m key) := by
  have hd := h.distinct
  rw [pairwise_append, pairwise_cons] at hd
  obtain ⟨hd1, ⟨hd2, hd3⟩, hd4⟩ := hd
  have hother : ∀ e ∈ l₁ ++ l₂, eq key e.1 = false := fun e he => by
    have hke : eq k e.1 = false := by
      obtain he | he := mem_append.1 he
      · rw [eq_comm heq]
        exact hd4 e he _ mem_cons_self
      · exact hd2 e he
    by_contra hno
    rw [heq.trans hk (by simpa using hno)] at hke
    cases hke
  have hsub : ∀ e ∈ l₁ ++ l₂, e ∈ l₁ ++ (k, v) :: l₂ := fun e he => by
    rw [mem_append] at he ⊢
    exact he.imp_right (mem_cons_of_mem _)
  refine ⟨pairwise_append.2 ⟨hd1, hd3, fun a ha b hb => hd4 a ha b (mem_cons_of_mem _ hb)⟩, fun x y => ?_⟩
  rw [unassign]
  constructor
  · split
    · nofun
    · next hx =>
      intro hm
      obtain ⟨e, he, hex, rfl⟩ := (h.get x y).1 hm
      refine ⟨e, ?_, hex, rfl⟩
      rw [mem_append, mem_cons] at he
      obtain he | rfl | he := he
      · exact mem_append_left _ he
      · exact absurd (heq.trans (heq.symm hk) hex) hx
      · exact mem_append_right _ he
  · rintro ⟨e, he, hex, rfl⟩
    rw [if_neg, h.get_of_mem (hsub e he) hex]
    intro hx
    have := heq.trans hx (heq.symm hex)
    rw [hother e he] at this
    cases this

theorem change (h : Lists eq (l₁ ++ (k, v) :: l₂) m) (hk : eq k key = true) (val : V) :
    Lists eq (l₁ ++ (k, val) :: l₂) (assign eq m key val) := by
  have hd := h.distinct
  rw [pairwise_append, pairwise_cons] at hd
  obtain ⟨hd1, ⟨hd2, hd3⟩, hd4⟩ := hd
  have hcons : Lists eq ((k, val) :: (l₁ ++ l₂)) (assign eq (unassign eq m key) k val) := by
    refine cons heq (remove heq h hk) (fun e he => ?_) val
    obtain he | he := mem_append.1 he
    · exact hd4 e he _ mem_cons_self
    · rw [eq_comm heq]
      exact hd2 e he
  have hmap : assign eq (unassign eq m key) k val = assign eq m key val := by
    funext x
    have hx : eq k x = eq key x := Bool.eq_iff_iff.2 ⟨heq.trans (heq.symm hk), heq.trans hk⟩
    rw [assign, assign, unassign, hx]
    split <;> rfl
  rw [hmap] at hcons
  exact perm heq hcons perm_middle.symm

theorem unassign_eq (h : Lists eq l m) (hno : m key = none) : unassign eq m key = m := by
  funext k
  rw [unassign]
  split
  · next hk =>
    cases hm : m k with
    | none => rfl
    | some v =>
      obtain ⟨e, he, hek, -⟩ := (h.get k v).1 hm
      rw [h.get_of_mem he (heq.trans hek (heq.symm hk))] at hno
      cases hno
  · rfl

end Lists

theorem flatMap_update {α : Type*} (f : ℕ → List α) {n j : ℕ} (hj : j < n) :
    ∃ a b, ∀ x, (List.range n).flatMap (Function.update f j x) = a ++ x ++ b := by
  obtain ⟨d, rfl⟩ := Nat.exists_eq_add_of_lt hj
  refine ⟨(List.range j).flatMap f, (List.range d).flatMap fun i => f (j + 1 + i), fun x => ?_⟩
  have hsplit : List.range (j + d + 1) = List.range j ++ j :: (List.range d).map (j + 1 + ·) := by
    rw [show j + d + 1 = j + (d + 1) by omega, range_add, range_succ_eq_map]
    simp [Function.comp_def]
    omega
  have hleft : (List.range j).flatMap (Function.update f j x) = (List.range j).flatMap f :=
    flatMap_congr fun i hi => Function.update_of_ne (Nat.ne_of_lt (mem_range.1 hi)) ..
  rw [hsplit, flatMap_append, flatMap_cons, Function.update_self, hleft, flatMap_map, append_assoc]
  congr 2
  exact flatMap_congr fun i _ => Function.update_of_ne (by omega) ..

end Libx.Core
