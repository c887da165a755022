import Libx.Xpp.WorkStealing
import Libx.Core.Run

/-!
# Libx.Xpp.WorkStealingExact — the work-stealing queue between the steps

The items that are not taken stand in the slots from the tail on, as many as the indices are apart; while the owner's
`pop` is not decided, the head counts one less.
-/

namespace Libx.Xpp

open Libx.Core (Run replay exists_run_of_replay)
open List Function

/-! ### Numbered items -/

section remaining

variable {n k : ℕ} {l taken : List ℕ}

theorem mem_remaining : k ∈ remaining n taken ↔ k < n ∧ k ∉ taken := by
  rw [remaining, mem_filter, mem_range, decide_eq_true_iff]

theorem nodup_remaining (n : ℕ) (taken : List ℕ) : (remaining n taken).Nodup :=
  nodup_range.filter _

theorem remaining_append (n k : ℕ) (taken : List ℕ) :
    remaining n (taken ++ [k]) = (remaining n taken).filter (· ≠ k) := by
  rw [remaining, remaining, filter_filter]
  refine filter_congr fun x _ => ?_
  simp [not_or, and_comm]

theorem remaining_head (h : remaining n taken = k :: l) : remaining n (taken ++ [k]) = l := by
  have hnd := nodup_remaining n taken
  rw [h, nodup_cons] at hnd
  rw [remaining_append, h, filter_cons_of_neg (by simp), filter_eq_self]
  intro x hx
  exact decide_eq_true fun e => hnd.1 (e ▸ hx)

theorem remaining_last (h : remaining n taken = l ++ [k]) : remaining n (taken ++ [k]) = l := by
  have hnd := nodup_remaining n taken
  rw [h] at hnd
  have hk : k ∉ l := fun hk => (nodup_append.1 hnd).2.2 k hk k (mem_singleton_self k) rfl
  rw [remaining_append, h, filter_append, filter_cons_of_neg (by simp), filter_nil, List.append_nil,
    filter_eq_self]
  intro x hx
  exact decide_eq_true fun e => hk (e ▸ hx)

theorem remaining_succ (h : ∀ k ∈ taken, k < n) : remaining (n + 1) taken = remaining n taken ++ [n] := by
  have hn : n ∉ taken := fun hn => lt_irrefl n (h n hn)
  rw [remaining, remaining, range_succ, filter_append, filter_cons_of_pos (by simpa using hn),
    filter_nil]

theorem perm_range (hnd : taken.Nodup) (h : ∀ k ∈ taken, k < n) : (taken ++ remaining n taken).Perm (List.range n) := by
  refine (perm_ext_iff_of_nodup ?_ nodup_range).2 fun k => ?_
  · refine nodup_append.2 ⟨hnd, nodup_remaining n taken, fun k hk m hm hkm => ?_⟩
    exact (mem_remaining.1 hm).2 (hkm ▸ hk)
  · rw [mem_append, mem_remaining, mem_range]
    constructor
    · rintro (hk | hk)
      · exact h k hk
      · exact hk.1
    · intro hk
      by_cases ht : k ∈ taken
      · exact .inl ht
      · exact .inr ⟨hk, ht⟩

end remaining

/-! ### Slots -/

theorem u32_of_lt {x : ℕ} (h : x < 2 ^ 32) : u32 x = x := Nat.mod_eq_of_lt h

theorem u32_sub {h t : ℕ} (ht : t ≤ h) (hh : h < 2 ^ 32) : u32 (h + 2 ^ 32 - t) = h - t := by
  rw [show h + 2 ^ 32 - t = h - t + 2 ^ 32 by omega, u32, Nat.add_mod_right]
  exact Nat.mod_eq_of_lt (by omega)

theorem u32_pred {h : ℕ} (h0 : 0 < h) (hh : h < 2 ^ 32) : u32 (h + 2 ^ 32 - 1) = h - 1 := u32_sub h0 hh

theorem Capacity.slot_ne (cap : Capacity) {i j : ℕ} (hij : i < j) (hj : j < 2 ^ 32) (hn : j - i < cap.n) :
    cap.slot i ≠ cap.slot j := by
  obtain ⟨k, hk⟩ := (Nat.and_sub_one_eq_zero_iff_isPowerOfTwo (by omega : cap.n ≠ 0)).1 cap.pow
  have hpos : 0 < 2 ^ k := Nat.two_pow_pos k
  have hmask : u32 (cap.n - 1) = 2 ^ min k 32 - 1 := by
    rcases Nat.le_total k 32 with hle | hle
    · have : 2 ^ k ≤ 2 ^ 32 := Nat.pow_le_pow_right (by decide) hle
      rw [Nat.min_eq_left hle, hk, u32_of_lt (by omega)]
    · obtain ⟨m, rfl⟩ := Nat.exists_eq_add_of_le hle
      have hm : 0 < 2 ^ m := Nat.two_pow_pos m
      rw [Nat.min_eq_right hle, hk, u32, Nat.pow_add]
      omega
  intro heq
  rw [slot, slot, hmask, Nat.and_two_pow_sub_one_eq_mod, Nat.and_two_pow_sub_one_eq_mod] at heq
  have hdvd : 2 ^ min k 32 ∣ j - i := Nat.dvd_of_mod_eq_zero (Nat.sub_mod_eq_zero_of_mod_eq heq.symm)
  have hge := Nat.le_of_dvd (by omega) hdvd
  rcases Nat.le_total k 32 with hle | hle
  · rw [Nat.min_eq_left hle] at hge
    omega
  · rw [Nat.min_eq_right hle] at hge
    omega

namespace WorkStealing

variable {α ι : Type*} [DecidableEq ι]

/-! ### The invariant -/

/-- The slots from the tail to the top, and the items that are not taken. -/
structure Ring (cap : Capacity) (tail top : ℕ) (slots : ℕ → Option α) (pushed : List α) (taken : List ℕ) : Prop where
  tail_le : tail ≤ top
  top_lt : top < 2 ^ 32
  room : top - tail ≤ cap.n
  length : (remaining pushed.length taken).length = top - tail
  slot : ∀ j k, (remaining pushed.length taken)[j]? = some k → pushed[k]? = slots (cap.slot (tail + j))
  nodup : taken.Nodup
  lt : ∀ k ∈ taken, k < pushed.length

/-- The index behind the newest item: a `pop` that is not decided has lowered the head. -/
def topOf (head : ℕ) : OwnerState α → ℕ
  | .checking _ | .claiming _ | .won _ | .lost _ => head + 1
  | _ => head

/-- The owner has taken this item and does not have it yet. -/
def inHand (held : List ℕ) : OwnerState α → Option ℕ
  | .won _ | .reading _ => held.getLast?
  | _ => none

omit [DecidableEq ι] in
def Taken (cap : Capacity) (s : WorkStealing α ι) (h : ℕ) : Prop :=
  ∃ k a, s.held.getLast? = some k ∧ s.pushed[k]? = some a ∧ s.slots (cap.slot h) = some a

omit [DecidableEq ι] in
def OwnerKnows (cap : Capacity) (s : WorkStealing α ι) : OwnerState α → Prop
  | .idle => True
  | .pushing _ h | .popping h => h = s.head
  | .writing _ h => h = s.head ∧ h - s.tail < cap.n
  | .storing a h => h = s.head ∧ h - s.tail < cap.n ∧ s.slots (cap.slot h) = some a
  | .lowering h => h + 1 = s.head
  | .checking h => h = s.head
  | .claiming h => h = s.head ∧ h ≤ s.tail
  | .won h => h = s.head ∧ s.tail = h + 1 ∧ s.Taken cap h
  | .lost t => t = s.head + 1 ∧ t = s.tail ∧ s.held = []
  | .reading h => s.Taken cap h

def ThiefKnows (cap : Capacity) (tail top : ℕ) (slots : ℕ → Option α) : ThiefState α → Prop
  | .idle => True
  | .loaded t => t ≤ tail
  | .reading t => t ≤ tail ∧ (t = tail → t < top)
  | .claiming t item => t ≤ tail ∧ (t = tail → t < top ∧ item = slots (cap.slot t))

/-- What was returned, and what is in the owner's hand, are the items that were taken. -/
structure Told (cap : Capacity) (pushed : List α) (taken : List ℕ) (log : List (Event α)) (hand : Option ℕ) : Prop where
  perm : (log.filterMap Event.ticket ++ hand.toList).Perm taken
  events : ∀ e ∈ log, Event.Valid cap pushed e

omit [DecidableEq ι] in
structure Inv (cap : Capacity) (s : WorkStealing α ι) : Prop where
  ring : Ring cap s.tail (topOf s.head s.owner) s.slots s.pushed s.taken
  owner : s.OwnerKnows cap s.owner
  thieves : ∀ i, ThiefKnows cap s.tail (topOf s.head s.owner) s.slots (s.thieves i)
  told : Told cap s.pushed s.taken s.log (inHand s.held s.owner)

variable {cap : Capacity} {s s' : WorkStealing α ι} {tail top : ℕ} {slots : ℕ → Option α} {pushed : List α}
  {taken : List ℕ} {log : List (Event α)} {hand : Option ℕ} {a : α} {i : ι} {t h : ℕ}

/-! ### The ring -/

namespace Ring

theorem write (r : Ring cap tail top slots pushed taken) (hn : top - tail < cap.n) (x : Option α) :
    Ring cap tail top (Function.update slots (cap.slot top) x) pushed taken where
  tail_le := r.tail_le
  top_lt := r.top_lt
  room := r.room
  length := r.length
  slot j k hk := by
    have hj : j < top - tail := r.length ▸ (List.getElem?_eq_some_iff.1 hk).1
    have hne : cap.slot (tail + j) ≠ cap.slot top := cap.slot_ne (by omega) r.top_lt (by omega)
    rw [update_of_ne hne]
    exact r.slot j k hk
  nodup := r.nodup
  lt := r.lt

theorem push (r : Ring cap tail top slots pushed taken) (hn : top - tail < cap.n) (hs : slots (cap.slot top) = some a)
    (ht : top + 1 < 2 ^ 32) : Ring cap tail (top + 1) slots (pushed ++ [a]) taken where
  tail_le := Nat.le_succ_of_le r.tail_le
  top_lt := ht
  room := by omega
  length := by
    have := r.tail_le
    rw [length_append, length_singleton, remaining_succ r.lt, length_append, r.length,
      length_singleton]
    omega
  slot j k hk := by
    have hle := r.tail_le
    rw [length_append, length_singleton, remaining_succ r.lt] at hk
    rcases Nat.lt_or_ge j (remaining pushed.length taken).length with hj | hj
    · rw [List.getElem?_append_left hj] at hk
      have hlt : k < pushed.length := (mem_remaining.1 (mem_of_getElem? hk)).1
      rw [List.getElem?_append_left hlt]
      exact r.slot j k hk
    · rw [List.getElem?_append_right hj, List.getElem?_singleton] at hk
      split at hk
      · next h0 =>
        have hlen := r.length
        cases Option.some.inj hk
        rw [List.getElem?_concat_length, show tail + j = top by omega, hs]
      · cases hk
  nodup := r.nodup
  lt k hk := by
    have := r.lt k hk
    rw [length_append]
    omega

theorem item (r : Ring cap tail top slots pushed taken) {j k : ℕ} (hk : (remaining pushed.length taken)[j]? = some k) :
    ∃ a, pushed[k]? = some a ∧ slots (cap.slot (tail + j)) = some a := by
  have hlt : k < pushed.length := (mem_remaining.1 (mem_of_getElem? hk)).1
  have hs := r.slot j k hk
  rw [List.getElem?_eq_getElem hlt] at hs ⊢
  exact ⟨_, rfl, hs.symm⟩

theorem taken_append (r : Ring cap tail top slots pushed taken) {k : ℕ} (hk : k ∈ remaining pushed.length taken) :
    (taken ++ [k]).Nodup ∧ ∀ m ∈ taken ++ [k], m < pushed.length := by
  obtain ⟨hlt, hnot⟩ := mem_remaining.1 hk
  refine ⟨nodup_append.2 ⟨r.nodup, by simp, fun m hm x hx hmx => ?_⟩, fun m hm => ?_⟩
  · exact hnot ((hmx.trans (mem_singleton.1 hx)) ▸ hm)
  rcases mem_append.1 hm with hm | hm
  · exact r.lt m hm
  · exact mem_singleton.1 hm ▸ hlt

theorem takeFirst (r : Ring cap tail top slots pushed taken) (hlt : tail < top) :
    ∃ k a l, remaining pushed.length taken = k :: l ∧ pushed[k]? = some a ∧ slots (cap.slot tail) = some a ∧
      Ring cap (tail + 1) top slots pushed (taken ++ [k]) := by
  have hlen := r.length
  cases hr : remaining pushed.length taken with
  | nil =>
    rw [hr, length_nil] at hlen
    omega
  | cons k l =>
    rw [hr, length_cons] at hlen
    obtain ⟨a, ha, hs⟩ := r.item (j := 0) (k := k) (by rw [hr]; rfl)
    obtain ⟨hnd, hmem⟩ := r.taken_append (k := k) (by rw [hr]; exact mem_cons_self)
    refine ⟨k, a, l, rfl, ha, hs, hlt, r.top_lt, ?_, ?_, fun j m hm => ?_, hnd, hmem⟩
    · have := r.room
      omega
    · rw [remaining_head hr]
      omega
    · rw [remaining_head hr] at hm
      rw [r.slot (j + 1) m (by rw [hr]; exact hm), show tail + (j + 1) = tail + 1 + j by omega]

theorem takeLast (r : Ring cap tail (top + 1) slots pushed taken) (hlt : tail ≤ top) :
    ∃ k a l, remaining pushed.length taken = l ++ [k] ∧ pushed[k]? = some a ∧ slots (cap.slot top) = some a ∧
      Ring cap tail top slots pushed (taken ++ [k]) := by
  have hlen := r.length
  rcases eq_nil_or_concat' (remaining pushed.length taken) with hr | ⟨l, k, hr⟩
  · rw [hr, length_nil] at hlen
    omega
  · rw [hr, length_append, length_singleton] at hlen
    obtain ⟨a, ha, hs⟩ := r.item (j := l.length) (k := k) (by rw [hr, List.getElem?_concat_length])
    obtain ⟨hnd, hmem⟩ := r.taken_append (k := k) (by rw [hr]; exact mem_append_right _ (mem_singleton_self k))
    rw [show tail + l.length = top by omega] at hs
    refine ⟨k, a, l, hr, ha, hs, hlt, by have := r.top_lt; omega, ?_, ?_, fun j m hm => ?_, hnd, hmem⟩
    · have := r.room
      omega
    · rw [remaining_last hr]
      omega
    · rw [remaining_last hr] at hm
      refine r.slot j m ?_
      rw [hr, List.getElem?_append_left (List.getElem?_eq_some_iff.1 hm).1, hm]

end Ring

/-! ### What a thief knows -/

namespace ThiefKnows

variable {x : ThiefState α}

theorem advance {top' : ℕ} (hx : ThiefKnows cap tail top slots x) : ThiefKnows cap (tail + 1) top' slots x := by
  cases x with
  | idle => trivial
  | loaded t => exact Nat.le_succ_of_le hx
  | reading t | claiming t item => exact ⟨Nat.le_succ_of_le hx.1, fun e => absurd hx.1 (by omega)⟩

theorem retop {top' : ℕ} (hx : ThiefKnows cap tail top slots x) (h : tail < top → tail < top') :
    ThiefKnows cap tail top' slots x := by
  cases x with
  | idle => trivial
  | loaded t => exact hx
  | reading t => exact ⟨hx.1, fun e => e ▸ h (e ▸ hx.2 e)⟩
  | claiming t item => exact ⟨hx.1, fun e => ⟨e ▸ h (e ▸ (hx.2 e).1), (hx.2 e).2⟩⟩

theorem write (hx : ThiefKnows cap tail top slots x) (ht : top < 2 ^ 32) (hn : top - tail < cap.n) (b : Option α) :
    ThiefKnows cap tail top (Function.update slots (cap.slot top) b) x := by
  cases x with
  | idle => trivial
  | loaded t | reading t => exact hx
  | claiming t item =>
    refine ⟨hx.1, fun e => ⟨(hx.2 e).1, ?_⟩⟩
    have hne : cap.slot t ≠ cap.slot top := cap.slot_ne (hx.2 e).1 ht (by omega)
    rw [update_of_ne hne]
    exact (hx.2 e).2

end ThiefKnows

/-! ### What was told -/

namespace Told

theorem valid_append {e : Event α} (h : e.Valid cap pushed) (b : α) : e.Valid cap (pushed ++ [b]) := by
  have hbind : ∀ o : Option ℕ, (∀ k ∈ o, k < pushed.length) → o.bind ((pushed ++ [b])[·]?) = o.bind (pushed[·]?) := by
    intro o ho
    cases o with
    | none => rfl
    | some k => exact List.getElem?_append_left (ho k rfl)
  have hlt : ∀ k, k < pushed.length → k < (pushed ++ [b]).length := fun k hk => by
    rw [length_append]
    omega
  cases e with
  | refused held => exact h
  | popped got held => exact ⟨h.1.trans (hbind _ h.2).symm, fun k hk => hlt k (h.2 k hk)⟩
  | stolen got held =>
    obtain ⟨hgot, k, hk, hkl⟩ := h
    refine ⟨hgot.trans (hbind _ fun m hm => ?_).symm, k, hk, hlt k hkl⟩
    cases Option.mem_unique hk hm
    exact hkl

theorem push (h : Told cap pushed taken log hand) (b : α) : Told cap (pushed ++ [b]) taken log hand :=
  ⟨h.perm, fun e he => valid_append (h.events e he) b⟩

theorem refuse (h : Told cap pushed taken log hand) {held : List ℕ} (hn : held.length = cap.n) :
    Told cap pushed taken (log ++ [.refused held]) hand := by
  refine ⟨?_, fun e he => ?_⟩
  · rw [filterMap_append, filterMap_cons_none rfl, filterMap_nil, List.append_nil]
    exact h.perm
  · rcases mem_append.1 he with he | he
    · exact h.events e he
    · cases mem_singleton.1 he
      exact hn

theorem take (h : Told cap pushed taken log none) (k : ℕ) : Told cap pushed (taken ++ [k]) log (some k) := by
  refine ⟨?_, h.events⟩
  have := h.perm
  rw [Option.toList_none, List.append_nil] at this
  exact this.append_right [k]

theorem pop {held : List ℕ} (h : Told cap pushed taken log held.getLast?) {got : Option α}
    (hv : (Event.popped got held).Valid cap pushed) : Told cap pushed taken (log ++ [.popped got held]) none := by
  refine ⟨?_, fun e he => ?_⟩
  · rw [filterMap_append, Option.toList_none, List.append_nil]
    have := h.perm
    cases hl : held.getLast? with
    | none | some k => simpa [Event.ticket, hl] using this
  · rcases mem_append.1 he with he | he
    · exact h.events e he
    · cases mem_singleton.1 he
      exact hv

theorem steal (h : Told cap pushed taken log hand) {k : ℕ} {l : List ℕ} (ha : pushed[k]? = some a) :
    Told cap pushed (taken ++ [k]) (log ++ [.stolen (some a) (k :: l)]) hand := by
  refine ⟨?_, fun e he => ?_⟩
  · have hlog : (log ++ [Event.stolen (some a) (k :: l)]).filterMap Event.ticket = log.filterMap Event.ticket ++ [k] := by
      rw [filterMap_append]
      rfl
    rw [hlog, append_assoc]
    refine (List.Perm.append_left _ perm_append_comm).trans ?_
    rw [← append_assoc]
    exact h.perm.append_right [k]
  · rcases mem_append.1 he with he | he
    · exact h.events e he
    · cases mem_singleton.1 he
      exact ⟨ha.symm, k, rfl, (List.getElem?_eq_some_iff.1 ha).1⟩

end Told

/-! ### The owner's steps -/

omit [DecidableEq ι] in
theorem inv_init : Inv cap ({} : WorkStealing α ι) where
  ring := by
    refine ⟨le_rfl, Nat.two_pow_pos 32, Nat.zero_le _, rfl, fun j k hk => ?_, nodup_nil, fun k hk => ?_⟩
    · exact absurd hk (by simp [remaining])
    · exact absurd hk not_mem_nil
  owner := trivial
  thieves := fun _ => trivial
  told := ⟨List.Perm.refl _, fun e he => absurd he not_mem_nil⟩

omit [DecidableEq ι] in
theorem takeNewest_eq {k : ℕ} {l : List ℕ} (h : s.untaken = l ++ [k]) :
    s.takeNewest = { s with held := s.untaken, taken := s.taken ++ [k] } := by
  rw [takeNewest, h, List.getLast?_concat]
  rfl

omit [DecidableEq ι] in
theorem inv_pushing {a : α} {h0 : ℕ} (hi : Inv cap s) (ho : s.owner = .pushing a h0) (h : s.stepOwner cap = some s') :
    Inv cap s' := by
  obtain ⟨ring, owner, thieves, told⟩ := hi
  rw [stepOwner] at h
  rw [ho] at h ring owner thieves told
  obtain rfl : h0 = s.head := owner
  have hle : s.tail ≤ s.head := ring.tail_le
  have hlen : s.untaken.length = s.head - s.tail := ring.length
  have hroom : s.head - s.tail ≤ cap.n := ring.room
  simp only [u32_sub hle ring.top_lt] at h
  split at h
  · next hn =>
    cases h
    exact ⟨ring, trivial, thieves, told.refuse (hlen.trans (Nat.le_antisymm hroom hn))⟩
  · next hn =>
    cases h
    exact ⟨ring, ⟨rfl, Nat.lt_of_not_le hn⟩, thieves, told⟩

omit [DecidableEq ι] in
theorem inv_popping {h0 : ℕ} (hi : Inv cap s) (ho : s.owner = .popping h0) (h : s.stepOwner cap = some s') :
    Inv cap s' := by
  obtain ⟨ring, owner, thieves, told⟩ := hi
  rw [stepOwner] at h
  rw [ho] at h ring owner thieves told
  obtain rfl : h0 = s.head := owner
  have hle : s.tail ≤ s.head := ring.tail_le
  have hlen : s.untaken.length = s.head - s.tail := ring.length
  dsimp only at h
  split at h
  · next heq =>
    cases h
    have hnil : s.untaken = [] := eq_nil_of_length_eq_zero (by omega)
    refine ⟨ring, trivial, thieves, ?_⟩
    have hnone : Told cap s.pushed s.taken s.log s.untaken.getLast? := by
      rw [hnil]
      exact told
    refine hnone.pop ?_
    rw [hnil]
    exact ⟨rfl, fun k hk => by cases hk⟩
  · next hne =>
    have hpos : 0 < s.head := by omega
    rw [u32_pred hpos ring.top_lt] at h
    cases h
    exact ⟨ring, Nat.sub_add_cancel hpos, thieves, told⟩

omit [DecidableEq ι] in
theorem inv_checking {h0 : ℕ} (hi : Inv cap s) (ho : s.owner = .checking h0) (h : s.stepOwner cap = some s') :
    Inv cap s' := by
  obtain ⟨ring, owner, thieves, told⟩ := hi
  rw [stepOwner] at h
  rw [ho] at h ring owner thieves told
  obtain rfl : h0 = s.head := owner
  have hle : s.tail ≤ s.head + 1 := ring.tail_le
  have hlen : s.untaken.length = s.head + 1 - s.tail := ring.length
  dsimp only at h
  split at h
  · next hlt =>
    obtain ⟨k, a, l, hu, ha, hs, ring'⟩ := Ring.takeLast ring hlt.le
    rw [takeNewest_eq hu] at h
    cases h
    have hlast : s.untaken.getLast? = some k := by rw [untaken, hu, List.getLast?_concat]
    refine ⟨ring', ⟨k, a, hlast, ha, hs⟩, fun i => (thieves i).retop fun _ => hlt, ?_⟩
    change Told cap s.pushed (s.taken ++ [k]) s.log s.untaken.getLast?
    rw [hlast]
    exact told.take k
  split at h
  · next heq =>
    cases h
    exact ⟨ring, ⟨rfl, heq.ge⟩, thieves, told⟩
  · next hne =>
    cases h
    have hnil : s.untaken = [] := eq_nil_of_length_eq_zero (by omega)
    exact ⟨ring, ⟨show s.tail = s.head + 1 by omega, rfl, hnil⟩, thieves, told⟩

omit [DecidableEq ι] in
theorem inv_claiming {h0 : ℕ} (hi : Inv cap s) (ho : s.owner = .claiming h0) (h : s.stepOwner cap = some s') :
    Inv cap s' := by
  obtain ⟨ring, owner, thieves, told⟩ := hi
  rw [stepOwner] at h
  rw [ho] at h ring owner thieves told
  obtain ⟨rfl, hge⟩ := owner
  have hle : s.tail ≤ s.head + 1 := ring.tail_le
  have hlen : s.untaken.length = s.head + 1 - s.tail := ring.length
  dsimp only at h
  split at h
  · next heq =>
    obtain ⟨k, a, l, hu, ha, hs, ring'⟩ := Ring.takeFirst ring (show s.tail < s.head + 1 by omega)
    have hl : l = [] := eq_nil_of_length_eq_zero (by
      rw [untaken, hu, length_cons] at hlen
      omega)
    have hu' : s.untaken = [] ++ [k] := by rw [untaken, hu, hl, nil_append]
    have hlast : s.untaken.getLast? = some k := by rw [hu', List.getLast?_concat]
    have htop : s.head + 1 < 2 ^ 32 := ring.top_lt
    rw [takeNewest_eq hu', u32_of_lt htop] at h
    cases h
    rw [heq] at ring' hs
    refine ⟨ring', ⟨rfl, rfl, k, a, hlast, ha, hs⟩, fun i => ?_, ?_⟩
    · have : ThiefKnows cap (s.tail + 1) (s.head + 1) s.slots (s.thieves i) := (thieves i).advance
      rwa [heq] at this
    · change Told cap s.pushed (s.taken ++ [k]) s.log s.untaken.getLast?
      rw [hlast]
      exact told.take k
  · next hne =>
    cases h
    have hnil : s.untaken = [] := eq_nil_of_length_eq_zero (by omega)
    exact ⟨ring, ⟨show s.tail = s.head + 1 by omega, rfl, hnil⟩, thieves, told⟩

omit [DecidableEq ι] in
theorem inv_stepOwner (hi : Inv cap s) (hc : s.Clean .owner) (h : s.stepOwner cap = some s') : Inv cap s' := by
  have ⟨ring, owner, thieves, told⟩ := hi
  rw [stepOwner] at h
  cases ho : s.owner with
  | idle =>
    rw [ho] at h
    cases h
  | pushing a h0 => exact inv_pushing hi ho h
  | writing a h0 =>
    rw [ho] at h ring owner thieves told
    cases h
    obtain ⟨rfl, hn⟩ := owner
    exact ⟨ring.write hn _, ⟨rfl, hn, update_self ..⟩, fun i => (thieves i).write ring.top_lt hn _, told⟩
  | storing a h0 =>
    rw [ho] at h ring owner thieves told
    simp only [Clean, ho] at hc
    dsimp only at h
    rw [Option.some.injEq, u32_of_lt hc] at h
    subst h
    obtain ⟨rfl, hn, hs⟩ := owner
    exact ⟨ring.push hn hs hc, trivial, fun i => (thieves i).retop fun hlt => Nat.lt_succ_of_lt hlt, told.push a⟩
  | popping h0 => exact inv_popping hi ho h
  | lowering h0 =>
    rw [ho] at h ring owner thieves told
    cases h
    have hh : h0 + 1 = s.head := owner
    rw [show topOf s.head (OwnerState.lowering h0 : OwnerState α) = h0 + 1 from hh.symm] at ring thieves
    exact ⟨ring, rfl, thieves, told⟩
  | checking h0 => exact inv_checking hi ho h
  | claiming h0 => exact inv_claiming hi ho h
  | won h0 =>
    rw [ho] at h ring owner thieves told
    obtain ⟨rfl, ht, hk⟩ := owner
    have htop : s.head + 1 < 2 ^ 32 := ring.top_lt
    dsimp only at h
    rw [u32_of_lt htop] at h
    cases h
    exact ⟨ring, hk, thieves, told⟩
  | lost t =>
    rw [ho] at h ring owner thieves told
    obtain ⟨rfl, ht, hnil⟩ := owner
    cases h
    refine ⟨ring, trivial, thieves, Told.pop ?_ ?_⟩
    · change Told cap s.pushed s.taken s.log s.held.getLast?
      rw [hnil]
      exact told
    · change (Event.popped none s.held).Valid cap s.pushed
      rw [hnil]
      exact ⟨rfl, fun k hk => by cases hk⟩
  | reading h0 =>
    rw [ho] at h ring owner thieves told
    cases h
    obtain ⟨k, a, hk, ha, hs⟩ := owner
    have hhand : Told cap s.pushed s.taken s.log s.held.getLast? := told
    refine ⟨ring, trivial, thieves, hhand.pop ⟨?_, fun m hm => ?_⟩⟩
    · rw [Event.ticket, hk, hs]
      exact ha.symm
    · cases Option.mem_unique hk hm
      exact (List.getElem?_eq_some_iff.1 ha).1

/-! ### A thief's steps -/

theorem inv_setThief (hi : Inv cap s) {x : ThiefState α} (hx : ThiefKnows cap s.tail (topOf s.head s.owner) s.slots x) :
    Inv cap (s.setThief i x) where
  ring := hi.ring
  owner := hi.owner
  thieves j := by
    change ThiefKnows cap s.tail (topOf s.head s.owner) s.slots (Function.update s.thieves i x j)
    by_cases hj : j = i
    · subst hj
      rw [update_self]
      exact hx
    · rw [update_of_ne hj]
      exact hi.thieves j
  told := hi.told

theorem le_topOf (head : ℕ) (x : OwnerState α) : head ≤ topOf head x := by
  cases x <;> simp [topOf]

variable {u : WorkStealing α ι}

omit [DecidableEq ι] in
/-- What the owner knows outlives the theft of an item: a `pop` that has won or lost leaves none to take. -/
theorem OwnerKnows.advance {x : OwnerState α} (ho : s.OwnerKnows cap x)
    (hlt : s.tail < topOf s.head x) (hh : u.head = s.head) (ht : u.tail = s.tail + 1) (hs : u.slots = s.slots)
    (hp : u.pushed = s.pushed) (hd : u.held = s.held) : u.OwnerKnows cap x := by
  cases x with
  | idle => trivial
  | pushing a h0 | popping h0 | lowering h0 | checking h0 =>
    change _ = u.head
    rw [hh]
    exact ho
  | writing a h0 | claiming h0 =>
    obtain ⟨rfl, hn⟩ := ho
    exact ⟨hh.symm, by rw [ht]; omega⟩
  | storing a h0 =>
    obtain ⟨rfl, hn, hw⟩ := ho
    exact ⟨hh.symm, by rw [ht]; omega, by rw [hs]; exact hw⟩
  | won h0 =>
    obtain ⟨rfl, hn, -⟩ := ho
    exact absurd hlt (by rw [hn]; exact lt_irrefl _)
  | lost t0 =>
    obtain ⟨rfl, hn, -⟩ := ho
    exact absurd hlt (by rw [← hn]; exact lt_irrefl _)
  | reading h0 =>
    obtain ⟨k, b, hk, hb, hw⟩ := ho
    exact ⟨k, b, by rw [hd]; exact hk, by rw [hp]; exact hb, by rw [hs]; exact hw⟩

theorem inv_stepThief (hi : Inv cap s) (h : s.stepThief cap i = some s') : Inv cap s' := by
  have hx := hi.thieves i
  rw [stepThief] at h
  cases ht : s.thieves i with
  | idle =>
    rw [ht] at h
    cases h
  | loaded t =>
    rw [ht] at h hx
    dsimp only at h
    split at h
    · next hle =>
      cases h
      exact inv_setThief hi trivial
    · next hlt =>
      cases h
      have := le_topOf s.head s.owner
      exact inv_setThief hi ⟨hx, fun _ => by omega⟩
  | reading t =>
    rw [ht] at h hx
    cases h
    exact inv_setThief hi ⟨hx.1, fun e => ⟨hx.2 e, rfl⟩⟩
  | claiming t item =>
    rw [ht] at h hx
    dsimp only at h
    split at h
    · next heq =>
      subst heq
      obtain ⟨hlt, hitem⟩ := hx.2 rfl
      obtain ⟨k, a, l, hu, ha, hs, ring'⟩ := hi.ring.takeFirst hlt
      have htop := hi.ring.top_lt
      rw [Option.some.injEq, stolen, u32_of_lt (by omega), untaken, hu, hitem, hs] at h
      subst h
      refine ⟨ring', hi.owner.advance hlt rfl rfl rfl rfl rfl, fun j => ?_, hi.told.steal ha⟩
      have := (inv_setThief hi (i := i) (x := .idle) trivial).thieves j
      exact this.advance
    · next hne =>
      cases h
      exact inv_setThief hi trivial

theorem inv_step {a : Act α ι} (hi : Inv cap s) (hc : s.Clean a) (h : s.step cap a = some s') : Inv cap s' := by
  cases a with
  | push b | pop =>
    rw [step] at h
    split at h
    · next ho =>
      cases h
      obtain ⟨ring, owner, thieves, told⟩ := hi
      rw [ho] at ring thieves told
      exact ⟨ring, rfl, thieves, told⟩
    · cases h
  | owner => exact inv_stepOwner hi hc h
  | steal i =>
    rw [step] at h
    split at h
    · cases h
      exact inv_setThief hi le_rfl
    · cases h
  | thief i => exact inv_stepThief hi h
  | spurious i =>
    rw [step] at h
    split at h
    · cases h
      exact inv_setThief hi trivial
    · cases h

/-! ### No operation is in progress -/

theorem filterMap_range {β γ : Type*} (f : β → Option γ) :
    ∀ l : List β, (List.range l.length).filterMap (fun j => l[j]?.bind f) = l.filterMap f
  | [] => rfl
  | b :: l => by
    rw [length_cons, range_succ_eq_map, filterMap_cons, filterMap_map, filterMap_cons]
    have ih := filterMap_range f l
    cases hb : f b with
    | none | some c => simpa [hb] using ih

omit [DecidableEq ι] in
theorem Ring.contents_eq (r : Ring cap s.tail s.head s.slots s.pushed s.taken) :
    s.contents cap = s.untaken.filterMap (s.pushed[·]?) := by
  rw [contents, ← r.length, ← filterMap_range (s.pushed[·]?)]
  refine filterMap_congr fun j hj => ?_
  have hj' : j < s.untaken.length := mem_range.1 hj
  have hk : s.untaken[j]? = some s.untaken[j] := List.getElem?_eq_getElem hj'
  rw [hk, Option.bind_some]
  exact (r.slot j _ hk).symm

theorem Told.got_eq (h : Told cap pushed taken log hand) :
    log.filterMap Event.got = (log.filterMap Event.ticket).filterMap (pushed[·]?) := by
  rw [filterMap_filterMap]
  refine filterMap_congr fun e he => ?_
  have hv := h.events e he
  cases e with
  | refused held => rfl
  | popped got held | stolen got held => exact hv.1

omit [DecidableEq ι] in
theorem Inv.all (hi : Inv cap s) (ho : s.owner = .idle) : (s.log.filterMap Event.got ++ s.contents cap).Perm s.pushed := by
  obtain ⟨ring, -, -, told⟩ := hi
  rw [ho] at ring told
  have htold : (s.log.filterMap Event.ticket).Perm s.taken := by
    have : (s.log.filterMap Event.ticket ++ []).Perm s.taken := told.perm
    rwa [List.append_nil] at this
  rw [told.got_eq, Ring.contents_eq ring, ← filterMap_append]
  have hall := (htold.append_right s.untaken).trans (perm_range ring.nodup ring.lt)
  refine (hall.filterMap _).trans (List.Perm.of_eq ?_)
  have := filterMap_range some s.pushed
  simpa using this

theorem steps_cons {a : Act α ι} {l : List (Act α ι)} (h : s.step cap a = some s')
    (hl : s'.steps cap l = some u) : s.steps cap (a :: l) = some u := by
  rw [steps, h, Option.bind_some, hl]

theorem Ring.popAlone (r : Ring cap s.tail s.head s.slots s.pushed s.taken) (ho : s.owner = .idle) (hne : s.untaken ≠ []) :
    ∃ n t a, s.steps cap (.pop :: List.replicate n .owner) = some t ∧ t.owner = .idle ∧
      t.log = s.log ++ [.popped (some a) s.untaken] := by
  have hlen : s.untaken.length = s.head - s.tail := r.length
  have hpos : 0 < s.untaken.length := length_pos_of_ne_nil hne
  have hpred : u32 (s.head + 2 ^ 32 - 1) = s.head - 1 := u32_pred (by omega) r.top_lt
  have hback : s.head = s.head - 1 + 1 := by omega
  have ring : Ring cap s.tail (s.head - 1 + 1) s.slots s.pushed s.taken := hback ▸ r
  obtain ⟨k, a, l, hu, ha, hs, -⟩ := ring.takeLast (by omega)
  have h1 : s.step cap .pop = some { s with owner := .popping s.head } := by rw [step, ho]
  have h2 : step cap { s with owner := .popping s.head } .owner = some { s with owner := .lowering (s.head - 1) } := by
    simp only [step, stepOwner]
    rw [if_neg (by omega), hpred]
  have h3 : step cap { s with owner := .lowering (s.head - 1) } .owner =
      some { s with head := s.head - 1, owner := .checking (s.head - 1) } := rfl
  by_cases hlt : s.tail < s.head - 1
  · have h4 : step cap { s with head := s.head - 1, owner := .checking (s.head - 1) } .owner =
        some { s with
          head := s.head - 1, owner := .reading (s.head - 1), held := s.untaken,
          taken := s.taken ++ s.untaken.getLast?.toList } := by
      simp only [step, stepOwner]
      rw [if_pos hlt]
      rfl
    have h5 : step cap { s with
          head := s.head - 1, owner := .reading (s.head - 1), held := s.untaken,
          taken := s.taken ++ s.untaken.getLast?.toList } .owner =
        some { s with
          head := s.head - 1, owner := .idle, held := s.untaken, taken := s.taken ++ s.untaken.getLast?.toList,
          log := s.log ++ [.popped (some a) s.untaken] } := by
      simp only [step, stepOwner]
      rw [hs]
      rfl
    exact ⟨4, _, a, steps_cons h1 <| steps_cons h2 <| steps_cons h3 <| steps_cons h4 <| steps_cons h5 rfl, rfl, rfl⟩
  · have heq : s.tail = s.head - 1 := by omega
    have hsucc : u32 (s.head - 1 + 1) = s.head := by rw [← hback, u32_of_lt r.top_lt]
    have h4 : step cap { s with head := s.head - 1, owner := .checking (s.head - 1) } .owner =
        some { s with head := s.head - 1, owner := .claiming (s.head - 1) } := by
      simp only [step, stepOwner]
      rw [if_neg hlt, if_pos heq]
    have h5 : step cap { s with head := s.head - 1, owner := .claiming (s.head - 1) } .owner =
        some { s with
          head := s.head - 1, tail := s.head, owner := .won (s.head - 1), held := s.untaken,
          taken := s.taken ++ s.untaken.getLast?.toList } := by
      simp only [step, stepOwner]
      rw [if_pos heq, hsucc]
      rfl
    have h6 : step cap { s with
          head := s.head - 1, tail := s.head, owner := .won (s.head - 1), held := s.untaken,
          taken := s.taken ++ s.untaken.getLast?.toList } .owner =
        some { s with
          tail := s.head, owner := .reading (s.head - 1), held := s.untaken,
          taken := s.taken ++ s.untaken.getLast?.toList } := by
      simp only [step, stepOwner]
      rw [hsucc]
    have h7 : step cap { s with
          tail := s.head, owner := .reading (s.head - 1), held := s.untaken,
          taken := s.taken ++ s.untaken.getLast?.toList } .owner =
        some { s with
          tail := s.head, owner := .idle, held := s.untaken, taken := s.taken ++ s.untaken.getLast?.toList,
          log := s.log ++ [.popped (some a) s.untaken] } := by
      simp only [step, stepOwner]
      rw [hs]
      rfl
    exact ⟨6, _, a, steps_cons h1 <| steps_cons h2 <| steps_cons h3 <| steps_cons h4 <| steps_cons h5 <|
      steps_cons h6 <| steps_cons h7 rfl, rfl, rfl⟩

theorem Inv.exact (hi : Inv cap s) (ho : s.owner = .idle) : s.Exact cap := by
  have ring := hi.ring
  rw [ho] at ring
  have hlen : s.untaken.length = s.head - s.tail := ring.length
  have hle : s.tail ≤ s.head := ring.tail_le
  refine ⟨Ring.contents_eq ring, hi.all ho, ?_, Ring.popAlone ring ho⟩
  rw [empty, decide_eq_true_iff, ← length_eq_zero_iff]
  omega

theorem Inv.isLossless (hi : Inv cap s) : s.Lossless cap where
  once := by
    have hnd : (s.log.filterMap Event.ticket ++ _).Nodup := hi.told.perm.nodup_iff.2 hi.ring.nodup
    exact (nodup_append.1 hnd).1
  events := hi.told.events
  quiet hq := hi.exact hq.1

/-- While no `push` finds the head at the last uint32 number, no item is lost and none is returned twice, `pop` returns
the newest and `steal` the oldest. -/
theorem lossless_of_clean (cap : Capacity) (h : Run (step cap) Clean ({} : WorkStealing α ι) s) : s.Lossless cap :=
  (h.preserves (fun _ _ _ hi hc hs => inv_step hi hc hs) inv_init).isLossless

/-- **The queue never holds more than its capacity**, whoever is in the middle of what. -/
theorem length_contents_le (cap : Capacity) (h : Run (step cap) Clean ({} : WorkStealing α ι) s) :
    (s.contents cap).length ≤ cap.n := by
  have ring := (h.preserves (fun _ _ _ hi hc hs => inv_step hi hc hs) inv_init).ring
  have htop : s.head ≤ topOf s.head s.owner := by
    cases s.owner <;> simp [topOf]
  exact (length_filterMap_le _ _).trans (by rw [length_range]; exact (Nat.sub_le_sub_right htop _).trans ring.room)

theorem length_contents_le_push : ∃ s : WorkStealing ℕ (Fin 1), Run (step ⟨2, rfl⟩) Clean {} s ∧ (s.contents ⟨2, rfl⟩).length ≤ 2 :=
  have h : Run (step ⟨2, rfl⟩) Clean {} _ := Run.single (m := .push 5) trivial rfl
  ⟨_, h, length_contents_le ⟨2, rfl⟩ h⟩

/-- `Clean`, computed. -/
def cleanb (s : WorkStealing α ι) (a : Act α ι) : Bool :=
  match a, s.owner with
  | .owner, .storing _ h => decide (h + 1 < 2 ^ 32)
  | _, _ => true

omit [DecidableEq ι] in
theorem clean_of_cleanb (s : WorkStealing α ι) (a : Act α ι) (h : s.cleanb a = true) : s.Clean a := by
  cases a with
  | owner => cases ho : s.owner <;> simp_all [Clean, cleanb]
  | _ => trivial

/-- Two items of which a thief takes the first while the owner pops the other. -/
theorem lossless_of_clean_two : ∃ s : WorkStealing ℕ (Fin 1), Run (step ⟨2, rfl⟩) Clean {} s ∧ s.Lossless ⟨2, rfl⟩ ∧
    s.log = [.stolen (some 5) [0], .popped (some 7) [0, 1]] := by
  have hreplay : replay (step ⟨2, rfl⟩) cleanb
      (fun s : WorkStealing ℕ (Fin 1) => decide (s.log = [.stolen (some 5) [0], .popped (some 7) [0, 1]])) {}
      [.push 5, .owner, .owner, .owner, .push 7, .owner, .owner, .owner, .steal 0, .pop, .owner, .thief 0, .owner,
        .thief 0, .owner, .thief 0, .owner] = true := by
    decide +kernel
  obtain ⟨s, hr, hp⟩ := exists_run_of_replay (step ⟨2, rfl⟩) Clean _ _ clean_of_cleanb hreplay
  exact ⟨s, hr, lossless_of_clean ⟨2, rfl⟩ hr, of_decide_eq_true hp⟩

/-! ### The head wraps -/

theorem run_push {ok : WorkStealing α ι → Act α ι → Prop} (ho : s.owner = .idle) (a : α)
    (hn : u32 (s.head + 2 ^ 32 - s.tail) < cap.n) (hok : ∀ u m, (∀ b h, u.owner ≠ .storing b h) → ok u m)
    (hlast : ∀ u b, u.owner = .storing b s.head → ok u .owner) :
    Run (step cap) ok s { s with
      head := u32 (s.head + 1), slots := Function.update s.slots (cap.slot s.head) (some a), owner := .idle,
      pushed := s.pushed ++ [a] } := by
  have h1 : s.step cap (.push a) = some { s with owner := .pushing a s.head } := by rw [step, ho]
  have h2 : step cap { s with owner := .pushing a s.head } .owner = some { s with owner := .writing a s.head } := by
    simp only [step, stepOwner]
    rw [if_neg (Nat.not_le.2 hn)]
  have h3 : step cap { s with owner := .writing a s.head } .owner = some { s with
      slots := Function.update s.slots (cap.slot s.head) (some a), owner := .storing a s.head } := rfl
  refine .head (hok _ _ ?_) h1 (.head (hok _ _ ?_) h2 (.head (hok _ _ ?_) h3 (.single (hlast _ a rfl) rfl)))
  · rw [ho]
    exact fun _ _ h => by cases h
  · exact fun _ _ h => by cases h
  · exact fun _ _ h => by cases h

theorem setThief_self (s : WorkStealing α ι) (i : ι) (x : ThiefState α) : (s.setThief i x).thieves i = x :=
  update_self ..

theorem step_loaded (h : s.thieves i = .loaded t) (hlt : t < s.head) :
    s.step cap (.thief i) = some (s.setThief i (.reading t)) := by
  rw [step, stepThief, h]
  exact if_neg (Nat.not_le.2 hlt)

theorem step_reading (h : s.thieves i = .reading t) :
    s.step cap (.thief i) = some (s.setThief i (.claiming t (s.slots (cap.slot t)))) := by
  rw [step, stepThief, h]

theorem step_claiming {item : Option α} (h : s.thieves i = .claiming t item) (ht : s.tail = t) :
    s.step cap (.thief i) = some (s.stolen i t item) := by
  rw [step, stepThief, h]
  exact if_pos ht

omit [DecidableEq ι] in
theorem clean_of_owner {m : Act α ι} (h : ∀ b k, u.owner ≠ .storing b k) : u.Clean m := by
  unfold Clean
  split
  · next ho => exact absurd ho (h _ _)
  · trivial

theorem run_cycle {s : WorkStealing ℕ Unit} (hq : s.Quiet) (ht : s.tail = s.head) (hlt : s.head + 1 < 2 ^ 32) :
    ∃ t : WorkStealing ℕ Unit, Run (step ⟨256, rfl⟩) Clean s t ∧ t.Quiet ∧ t.head = s.head + 1 ∧ t.tail = s.head + 1 := by
  have hpush : Run (step ⟨256, rfl⟩) Clean s _ := run_push hq.1 0
    (by rw [ht, u32_sub le_rfl (by omega), Nat.sub_self]; decide) (fun u m h => clean_of_owner h)
    (fun u b hb => by simpa [Clean, hb] using hlt)
  rw [u32_of_lt hlt] at hpush
  obtain ⟨u, hu, hup⟩ : ∃ u : WorkStealing ℕ Unit, Run (step ⟨256, rfl⟩) Clean s u ∧
      u.owner = .idle ∧ u.thieves () = .idle ∧ u.head = s.head + 1 ∧ u.tail = s.head := ⟨_, hpush, rfl, hq.2 (), rfl, ht⟩
  obtain ⟨ho, hi, hh, htl⟩ := hup
  have hc : ∀ (x : WorkStealing ℕ Unit) (m : Act ℕ Unit), x.owner = .idle → x.Clean m := fun x m hx =>
    clean_of_owner fun b k h => OwnerState.noConfusion rfl (heq_of_eq (hx.symm.trans h))
  have h1 : u.step ⟨256, rfl⟩ (.steal ()) = some (u.setThief () (.loaded s.head)) := by rw [step, hi, htl]
  let v := u.setThief () (.loaded s.head)
  let w := v.setThief () (.reading s.head)
  let x := w.setThief () (.claiming s.head (w.slots (Capacity.slot ⟨256, rfl⟩ s.head)))
  have h2 : v.step ⟨256, rfl⟩ (.thief ()) = some w :=
    step_loaded (setThief_self u () (.loaded s.head)) (show s.head < u.head by omega)
  have h3 : w.step ⟨256, rfl⟩ (.thief ()) = some x := step_reading (setThief_self v () (.reading s.head))
  have h4 : x.step ⟨256, rfl⟩ (.thief ()) = some (x.stolen () s.head _) :=
    step_claiming (setThief_self w () (.claiming s.head _)) htl
  refine ⟨_, hu.trans (.head (hc _ _ ho) h1 (.head (hc _ _ ho) h2 (.head (hc _ _ ho) h3 (.single (hc _ _ ho) h4)))), ?_⟩
  exact ⟨⟨ho, fun _ => setThief_self x () .idle⟩, hh, u32_of_lt hlt⟩

theorem run_cycles : ∀ n, n < 2 ^ 32 →
    ∃ s : WorkStealing ℕ Unit, Run (step ⟨256, rfl⟩) Clean {} s ∧ s.Quiet ∧ s.head = n ∧ s.tail = n
  | 0, _ => ⟨{}, .refl, ⟨rfl, fun _ => rfl⟩, rfl, rfl⟩
  | n + 1, h => by
    obtain ⟨s, hr, hq, hh, ht⟩ := run_cycles n (by omega)
    obtain ⟨t, hr', hq', hh', ht'⟩ := run_cycle hq (by omega) (by omega)
    exact ⟨t, hr.trans hr', hq', by omega, by omega⟩

/-- After 2^32 - 1 items that were pushed and stolen, one that is pushed is there, and `empty()` is true. -/
theorem not_lossless_wrapped : ¬ ∀ s : WorkStealing ℕ Unit, Run (step ⟨256, rfl⟩) (fun _ _ => True) {} s →
    s.Lossless ⟨256, rfl⟩ := by
  intro hall
  obtain ⟨s, hr, hq, hh, ht⟩ := run_cycles (2 ^ 32 - 1) (by decide)
  have hi := hr.preserves (fun _ _ _ hi hc hs => inv_step hi hc hs) inv_init
  have hpush : Run (step ⟨256, rfl⟩) (fun _ _ => True) s _ := run_push hq.1 0
    (by rw [ht, hh]; decide) (fun _ _ _ => trivial) (fun _ _ _ => trivial)
  have hl := hall _ ((hr.mono fun _ _ _ => trivial).trans hpush)
  have he := (hl.quiet ⟨rfl, hq.2⟩).empty.1 (by
    rw [empty, decide_eq_true_iff]
    change u32 (s.head + 1) ≤ s.tail
    rw [hh]
    exact Nat.zero_le _)
  have hn : s.pushed.length ∈ remaining (s.pushed ++ [0]).length s.taken := by
    rw [length_append, length_singleton, mem_remaining]
    exact ⟨Nat.lt_succ_self _, fun hm => lt_irrefl _ (hi.ring.lt _ hm)⟩
  exact ne_nil_of_mem hn he

end WorkStealing

end Libx.Xpp
