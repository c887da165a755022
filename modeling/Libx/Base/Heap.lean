import Libx.Agent.Message
import Libx.Core.HeapOrder
import Libx.Core.Run

/-!
# Libx.Base.Heap — the indexed heap as a priority queue

base/heap.c over the sifts of `IndexedHeap`.  An element is a pointer; what `cmp` compares is behind it and can change.
-/

namespace Libx.Base

open Libx.Agent (Errno)
open Libx.Core (IndexedHeap Run Strict)

/-- `xHeap_`: `data` with `size`, and in `idx` the last value passed to `setidx` for each element. -/
structure Heap (α : Type) extends IndexedHeap α where
  cap : ℕ

namespace Heap

variable {α : Type}

/-- `HEAP_DEFAULT_CAP`. -/
def defaultCap : ℕ := 16

/-- `xHeapCreate`. -/
def create (cap : ℕ) : Heap α := { cap := if cap = 0 then defaultCap else cap }

/-- `ensure_cap`; `mem` tells whether `realloc` has memory. -/
def ensureCap (mem : Bool) (h : Heap α) : Option (Heap α) :=
  if h.data.size < h.cap then some h
  else if mem then some { h with cap := if h.cap = 0 then defaultCap else h.cap * 2 }
  else none

theorem ensureCap_eq {mem : Bool} {h h' : Heap α} (hm : h.ensureCap mem = some h') :
    h'.toIndexedHeap = h.toIndexedHeap := by
  unfold ensureCap at hm
  split_ifs at hm
  all_goals
    cases hm
    rfl

variable [DecidableEq α] (cmp : α → α → ℤ)

/-- `cmp(a, b) < 0`. -/
def before (a b : α) : Bool := cmp a b < 0

/-- `xHeapPush`; no element is NULL. -/
def push (elem : Option α) (mem : Bool) (h : Heap α) : Errno × Heap α :=
  match elem with
  | none => (.invalidArg, h)
  | some a =>
    match h.ensureCap mem with
    | none => (.noMemory, h)
    | some h => (.ok, { h with toIndexedHeap := h.toIndexedHeap.push (before cmp) a })

/-- `xHeapPop`. -/
def pop (h : Heap α) : Option α × Heap α :=
  if h.data.size = 0 then (none, h)
  else (h.data[0]?, { h with toIndexedHeap := h.toIndexedHeap.pop (before cmp) })

/-- `xHeapRemove`. -/
def remove (i : ℕ) (h : Heap α) : Option α × Heap α :=
  if h.data.size ≤ i then (none, h)
  else (h.data[i]?, { h with toIndexedHeap := h.toIndexedHeap.removeAt (before cmp) i })

/-- `xHeapUpdate`. -/
def update (i : ℕ) (h : Heap α) : Errno × Heap α :=
  if h.data.size ≤ i then (.invalidArg, h)
  else (.ok, { h with toIndexedHeap := h.toIndexedHeap.update (before cmp) i })

end Heap

/-- A heap in use: the keys of the elements, what was pushed, and what Pop and Remove have returned. -/
structure Queue (α κ : Type) extends Heap α where
  key : α → κ
  pushed : List α := []
  removed : List α := []

/-- A call, or a change of the key of an element that is not in the heap; an update comes with the new key of the
element at `idx`. -/
inductive HeapOp (α κ : Type)
  | push (elem : Option α) (mem : Bool)
  | pop
  | remove (idx : ℕ)
  | update (idx : ℕ) (key : κ)
  | rekey (elem : α) (key : κ)

/-- `cmp` is a total preorder. -/
structure TotalPreorder {κ : Type} (cmp : κ → κ → ℤ) : Prop where
  swap : ∀ a b, cmp a b < 0 ↔ 0 < cmp b a
  trans : ∀ a b c, cmp a b ≤ 0 → cmp b c ≤ 0 → cmp a c ≤ 0

namespace Queue

variable {α κ : Type}

def init (cap : ℕ) (key : α → κ) : Queue α κ := { Heap.create cap with key }

/-- `cmp` on the elements. -/
def cmpElem (cmp : κ → κ → ℤ) (q : Queue α κ) (a b : α) : ℤ := cmp (q.key a) (q.key b)

variable [DecidableEq α] (cmp : κ → κ → ℤ)

def step (q : Queue α κ) : HeapOp α κ → Option (Queue α κ)
  | .push elem mem =>
    let r := q.toHeap.push (q.cmpElem cmp) elem mem
    some { q with toHeap := r.2, pushed := if r.1 = .ok then elem.toList ++ q.pushed else q.pushed }
  | .pop =>
    let r := q.toHeap.pop (q.cmpElem cmp)
    some { q with toHeap := r.2, removed := r.1.toList ++ q.removed }
  | .remove idx =>
    let r := q.toHeap.remove (q.cmpElem cmp) idx
    some { q with toHeap := r.2, removed := r.1.toList ++ q.removed }
  | .update idx key =>
    let q : Queue α κ :=
      match q.data[idx]? with
      | none => q
      | some a => { q with key := Function.update q.key a key }
    some { q with toHeap := (q.toHeap.update (q.cmpElem cmp) idx).2 }
  | .rekey elem key => if elem ∈ q.data then none else some { q with key := Function.update q.key elem key }

/-- **A priority queue**: no element comes before its parent; every element has its place noted; the elements are those
pushed without those taken out; Pop returns one that none comes before, and takes out no other; Remove returns the one
that was at the index, and takes out no other. -/
structure Sound (q : Queue α κ) : Prop where
  ordered : ∀ i (hi : i < q.data.size), 0 < i → 0 ≤ cmp (q.key q.data[i]) (q.key q.data[(i - 1) / 2])
  indexed : ∀ i (hi : i < q.data.size), q.idx q.data[i] = some i
  balance : (q.removed ++ q.data.toList).Perm q.pushed
  pop : 0 < q.data.size → ∃ a h, q.toHeap.pop (q.cmpElem cmp) = (some a, h) ∧
    (∀ b ∈ q.data, cmp (q.key a) (q.key b) ≤ 0) ∧ (a :: h.data.toList).Perm q.data.toList
  remove : ∀ i (hi : i < q.data.size), ∃ h, q.toHeap.remove (q.cmpElem cmp) i = (some q.data[i], h) ∧
    (q.data[i] :: h.data.toList).Perm q.data.toList

def Fresh (q : Queue α κ) : HeapOp α κ → Prop
  | .push (some a) _ => a ∉ q.data
  | _ => True

instance (q : Queue α κ) : (m : HeapOp α κ) → Decidable (q.Fresh m)
  | .push (some a) _ => inferInstanceAs (Decidable (a ∉ q.data))
  | .push none _ | .pop | .remove _ | .update .. | .rekey .. => isTrue trivial

/-! ### The order of the elements -/

variable {cmp} {q q' : Queue α κ}

omit [DecidableEq α] in
theorem strict_before (hcmp : TotalPreorder cmp) (q : Queue α κ) : Strict (Heap.before (q.cmpElem cmp)) := by
  have hle : ∀ a b, Heap.before (q.cmpElem cmp) b a = false ↔ cmp (q.key a) (q.key b) ≤ 0 := by
    intro a b
    have := hcmp.swap (q.key b) (q.key a)
    unfold Heap.before cmpElem
    rw [decide_eq_false_iff_not]
    omega
  refine ⟨fun a b hab => ?_, fun a b c hab hbc => ?_⟩
  · have hlt : cmp (q.key a) (q.key b) < 0 := of_decide_eq_true hab
    exact (hle a b).2 (by omega)
  · exact (hle a c).2 (hcmp.trans _ _ _ ((hle a b).1 hab) ((hle b c).1 hbc))

/-- What the calls keep. -/
structure Inv (cmp : κ → κ → ℤ) (q : Queue α κ) : Prop where
  ordered : IndexedHeap.Ordered (Heap.before (q.cmpElem cmp)) q.toIndexedHeap
  indexed : q.Indexed
  balance : (q.removed ++ q.data.toList).Perm q.pushed

theorem Inv.sound (hcmp : TotalPreorder cmp) (h : q.Inv cmp) : q.Sound cmp := by
  have hlt := strict_before hcmp q
  have hle : ∀ {a b}, Heap.before (q.cmpElem cmp) b a = false → 0 ≤ cmp (q.key b) (q.key a) := by
    intro a b hab
    have := of_decide_eq_false hab
    unfold cmpElem at this
    omega
  refine ⟨fun i hi h0 => ?_, h.indexed, h.balance, fun h0 => ?_, fun i hi => ?_⟩
  · exact hle (h.ordered i h0 _ hi)
  · refine ⟨q.data[0], { q.toHeap with toIndexedHeap := q.toIndexedHeap.pop (Heap.before (q.cmpElem cmp)) }, ?_,
      fun b hb => ?_, IndexedHeap.perm_pop _ _ h0⟩
    · unfold Heap.pop
      rw [if_neg (by omega), Array.getElem?_eq_getElem h0]
    · obtain ⟨j, hj, rfl⟩ := Array.mem_iff_getElem.1 hb
      have := hle (h.ordered.first hlt j h0 hj)
      have := hcmp.swap (q.key q.data[j]) (q.key q.data[0])
      omega
  · refine ⟨{ q.toHeap with toIndexedHeap := q.toIndexedHeap.removeAt (Heap.before (q.cmpElem cmp)) i }, ?_,
      IndexedHeap.perm_removeAt _ _ hi⟩
    unfold Heap.remove
    rw [if_neg (by omega), Array.getElem?_eq_getElem hi]

omit [DecidableEq α] in
theorem Inv.taken {h' : Heap α} {a : α} (h : q.Inv cmp) (ho : IndexedHeap.Ordered (Heap.before (q.cmpElem cmp)) h'.toIndexedHeap)
    (hx : h'.Indexed) (hp : (a :: h'.data.toList).Perm q.data.toList) :
    Inv cmp { q with toHeap := h', removed := a :: q.removed } :=
  ⟨ho, hx, (List.perm_middle.symm.trans (hp.append_left _)).trans h.balance⟩

theorem before_update (a : α) (key : κ) {b c : α} (hb : b ≠ a) (hc : c ≠ a) :
    Heap.before (cmpElem cmp { q with key := Function.update q.key a key }) b c =
      Heap.before (q.cmpElem cmp) b c := by
  have heq : cmpElem cmp { q with key := Function.update q.key a key } b c = q.cmpElem cmp b c := by
    unfold cmpElem
    dsimp only
    rw [Function.update_of_ne hb, Function.update_of_ne hc]
  exact congrArg (fun n : ℤ => decide (n < 0)) heq

theorem inv_step (hcmp : TotalPreorder cmp) {m : HeapOp α κ} (h : q.Inv cmp) (hf : q.Fresh m)
    (hs : q.step cmp m = some q') : q'.Inv cmp := by
  have hlt := strict_before hcmp q
  cases m with
  | push elem mem =>
    injection hs with hs
    subst hs
    unfold Heap.push
    cases elem with
    | none => exact h
    | some a =>
      cases hm : q.toHeap.ensureCap mem with
      | none => exact h
      | some h' =>
        have heq := Heap.ensureCap_eq hm
        dsimp only
        rw [heq]
        refine ⟨IndexedHeap.ordered_push hlt h.ordered a, (Core.IndexedHeap.pushed_push _ _ a).indexed h.indexed hf, ?_⟩
        rw [if_pos rfl]
        refine ((IndexedHeap.perm_push _ _ a).append_left q.removed).trans ?_
        exact List.perm_middle.trans (h.balance.cons a)
  | pop =>
    injection hs with hs
    subst hs
    unfold Heap.pop
    by_cases h0 : q.data.size = 0
    · rw [if_pos h0]
      exact h
    · rw [if_neg h0, Array.getElem?_eq_getElem (by omega)]
      have h0 : 0 < q.data.size := by omega
      exact h.taken (IndexedHeap.ordered_pop hlt h.ordered) (Core.IndexedHeap.removed_pop _ h.indexed h0).indexed
        (IndexedHeap.perm_pop _ _ h0)
  | remove idx =>
    injection hs with hs
    subst hs
    unfold Heap.remove
    by_cases hi : q.data.size ≤ idx
    · rw [if_pos hi]
      exact h
    · rw [if_neg hi, Array.getElem?_eq_getElem (by omega)]
      have hi : idx < q.data.size := by omega
      exact h.taken (IndexedHeap.ordered_removeAt hlt h.ordered idx)
        (Core.IndexedHeap.removed_removeAt _ h.indexed hi).indexed (IndexedHeap.perm_removeAt _ _ hi)
  | update idx key =>
    injection hs with hs
    subst hs
    unfold Heap.update
    by_cases hi : q.data.size ≤ idx
    · rw [Array.getElem?_eq_none hi, if_pos hi]
      exact h
    · have hi : idx < q.data.size := by omega
      rw [Array.getElem?_eq_getElem hi, if_neg (by omega)]
      let q' : Queue α κ := { q with key := Function.update q.key q.data[idx] key }
      have har : IndexedHeap.Around (Heap.before (q'.cmpElem cmp)) q'.toIndexedHeap idx := by
        refine h.ordered.change hlt hi (fun a b ha hb hai hbi => before_update _ _ ?_ ?_)
        · exact fun he => hbi (h.indexed.inj he)
        · exact fun he => hai (h.indexed.inj he)
      refine ⟨IndexedHeap.ordered_update (strict_before hcmp q') har hi, (IndexedHeap.same_update _ _ idx).indexed h.indexed, ?_⟩
      exact ((IndexedHeap.perm_update _ _ idx).append_left q.removed).trans h.balance
  | rekey elem key =>
    unfold step at hs
    dsimp only at hs
    split_ifs at hs with hmem
    injection hs with hs
    subst hs
    refine ⟨fun i h0 hp hi => ?_, h.indexed, h.balance⟩
    refine (before_update _ _ ?_ ?_).trans (h.ordered i h0 hp hi)
    · exact fun he => hmem (he ▸ Array.getElem_mem hi)
    · exact fun he => hmem (he ▸ Array.getElem_mem hp)

/-- **The heap is a priority queue.** -/
theorem sound_of_run {cap : ℕ} {key : α → κ} (hcmp : TotalPreorder cmp)
    (h : Run (step cmp) Fresh (init cap key) q) : q.Sound cmp := by
  refine Inv.sound hcmp (h.preserves (I := Inv cmp) (fun s m t hi hf hs => inv_step hcmp hi hf hs) ⟨?_, ?_, .refl _⟩)
  · exact fun i _ _ hi => absurd hi (Nat.not_lt_zero i)
  · exact fun i hi => absurd hi (Nat.not_lt_zero i)

/-! ### Two runs -/

def diff (a b : ℤ) : ℤ := a - b

theorem totalPreorder_diff : TotalPreorder diff := by
  unfold diff
  exact ⟨fun a b => by omega, fun a b c hab hbc => by omega⟩

theorem sound_of_run_five : ∃ q : Queue ℕ ℤ,
    (q.removed = [8] ∧ q.data = #[5]) ∧ q.Sound diff := by
  obtain ⟨q, hq, hp⟩ := Core.exists_run_of_replay (step diff) Fresh (fun q m => decide (q.Fresh m))
    (fun q => q.removed = [8] ∧ q.data = #[5]) (fun _ _ => of_decide_eq_true)
    (show Core.replay _ _ _ (init 0 Int.ofNat) [.push (some 8) true, .push (some 5) true, .update 0 9, .pop] = true by
      decide +kernel)
  exact ⟨q, of_decide_eq_true hp, sound_of_run totalPreorder_diff hq⟩

/-- An element that is pushed twice is at two places, and has one noted. -/
theorem not_sound_pushed_twice :
    ¬∀ q : Queue ℕ ℤ, Run (step diff) (fun _ _ => True) (init 0 Int.ofNat) q → q.Sound diff := by
  intro hall
  obtain ⟨q, hq, hp⟩ := Core.exists_run_of_replay (step diff) (fun _ _ => True) (fun _ _ => true)
    (fun q => q.data = #[5, 5]) (fun _ _ _ => trivial)
    (show Core.replay _ _ _ (init 0 Int.ofNat) [.push (some 5) true, .push (some 5) true] = true by decide +kernel)
  have hd : q.data = #[5, 5] := of_decide_eq_true hp
  have hx := (hall q hq).indexed
  simp only [hd] at hx
  have h0 := hx 0 (by decide)
  have h1 := hx 1 (by decide)
  exact absurd (h0.symm.trans h1) (by decide)

end Queue

end Libx.Base
