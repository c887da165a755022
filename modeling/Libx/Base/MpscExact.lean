import Libx.Base.Mpsc
import Libx.Core.Run

/-!
# Libx.Base.MpscExact — the queue between the steps

Every node that was exchanged for the tail and is not returned stands in the order of the exchanges; what its neighbour's
link and the head lack is in the hand of one producer.
-/

namespace Libx.Base

open List Function Option

namespace Mpsc

open Libx.Core (Run replay exists_run_of_replay)

variable {P N : Type*} [DecidableEq P] [DecidableEq N]

/-! ### The invariant -/

/-- The node that the consumer has taken from the tail, and has not returned. -/
def taken : PopState N → Option N
  | .emptied h => some h
  | _ => none

/-- The number of nodes that are out of the queue. -/
def first (s : Mpsc P N) (out : Option N) : ℕ := s.popped.length + out.toList.length

/-- The producer has called `xMpscPush` with the node and has not exchanged the tail. -/
def Waiting (s : Mpsc P N) (p : P) (n : N) : Prop := s.producers p = .called n ∨ s.producers p = .cleared n

/-- The push that a producer has called, before the exchange. -/
def call (p : P) : PushState N → List (P × N)
  | .called n | .cleared n => [(p, n)]
  | _ => []

/-- The head has not been written since the queue was empty. -/
def Stale (s : Mpsc P N) (out : Option N) : Prop := s.head = none ∨ s.head = out

/-- The words and the links, where the consumer has `out` in its hand. -/
structure Queue (s : Mpsc P N) (out : Option N) : Prop where
  popped : s.popped <+: s.pushed
  calls : ∀ p, s.calls.filter (·.1 = p) = s.order.filter (·.1 = p) ++ call p (s.producers p)
  first_le : s.first out ≤ s.order.length
  held : ∀ h, out = some h → ∃ p, s.order[s.popped.length]? = some (p, h)
  nodup : ∀ i j p q n, s.popped.length ≤ i → s.popped.length ≤ j → s.order[i]? = some (p, n) →
    s.order[j]? = some (q, n) → i = j
  inUse : ∀ i p n, s.popped.length ≤ i → s.order[i]? = some (p, n) → s.inUse n = true
  waiting : ∀ p n, s.Waiting p n →
    s.inUse n = true ∧ ∀ i q m, s.popped.length ≤ i → s.order[i]? = some (q, m) → m ≠ n
  waiting_inj : ∀ p q n, s.Waiting p n → s.Waiting q n → p = q
  cleared : ∀ p n, s.producers p = .cleared n → s.next n = none
  tail_none : s.first out = s.order.length → s.tail = none
  tail_some : ∀ k p n, s.first out ≤ k → k + 1 = s.order.length → s.order[k]? = some (p, n) → s.tail = some n ∧ s.next n = none
  link : ∀ k p q n m, s.first out ≤ k → s.order[k]? = some (p, n) → s.order[k + 1]? = some (q, m) →
    s.next n = some m ∨ s.next n = none ∧ s.producers q = .swapped m (some n)
  linking : ∀ q n m, s.producers q = .swapped m (some n) →
    ∃ k p, s.first out ≤ k ∧ s.order[k]? = some (p, n) ∧ s.order[k + 1]? = some (q, m) ∧ s.next n = none
  head_none : s.first out = s.order.length → s.Stale out
  head_some : ∀ p n, s.order[s.first out]? = some (p, n) →
    s.head = some n ∨ s.Stale out ∧ s.producers p = .swapped n none
  heading : ∀ p n, s.producers p = .swapped n none → s.order[s.first out]? = some (p, n) ∧ s.Stale out

def Knows (s : Mpsc P N) : PopState N → Prop
  | .idle | .emptied _ => True
  | .loaded h | .single h => s.head = some h ∧ ∃ p, s.order[s.popped.length]? = some (p, h)
  | .spinning h => s.head = some h ∧ (∃ p, s.order[s.popped.length]? = some (p, h)) ∧
    ∃ e, s.order[s.popped.length + 1]? = some e
  | .advancing h n => s.head = some h ∧ (∃ p, s.order[s.popped.length]? = some (p, h)) ∧
    s.next h = some n ∧ ∃ p, s.order[s.popped.length + 1]? = some (p, n)

structure Inv (s : Mpsc P N) : Prop where
  queue : Queue s (taken s.consumer)
  knows : s.Knows s.consumer

variable {s s' : Mpsc P N} {p q : P} {n : N} {out : Option N}

omit [DecidableEq N] in
theorem inv_init (next : N → Option N) : Inv ({ next } : Mpsc P N) where
  queue :=
    { popped := nil_prefix, calls := fun _ => rfl, first_le := Nat.le_refl _, held := nofun
      nodup := fun i _ _ _ _ _ _ h => by simp at h
      inUse := fun i _ _ _ h => by simp at h
      waiting := fun _ _ h => by obtain h | h := h <;> cases h
      waiting_inj := fun _ _ _ h => by obtain h | h := h <;> cases h
      cleared := nofun, tail_none := fun _ => rfl, tail_some := fun k _ _ _ _ h => by simp at h
      link := fun k _ _ _ _ _ h => by simp at h
      linking := nofun, head_none := fun _ => .inl rfl, head_some := fun _ _ h => by simp at h
      heading := nofun }
  knows := trivial

omit [DecidableEq N] in
theorem setProducer_self (s : Mpsc P N) (p : P) (x : PushState N) : (s.setProducer p x).producers p = x :=
  update_self ..

omit [DecidableEq N] in
theorem setProducer_ne (x : PushState N) (h : q ≠ p) : (s.setProducer p x).producers q = s.producers q :=
  update_of_ne h ..

omit [DecidableEq N] in
theorem setProducer_eq {x y : PushState N} (h : (s.setProducer p x).producers q = y) :
    q = p ∧ x = y ∨ q ≠ p ∧ s.producers q = y := by
  by_cases hq : q = p
  · rw [hq, setProducer_self] at h
    exact .inl ⟨hq, h⟩
  · rw [setProducer_ne x hq] at h
    exact .inr ⟨hq, h⟩

omit [DecidableEq N] in
theorem Queue.withConsumer (h : Queue s out) (c : PopState N) : Queue { s with consumer := c } out :=
  ⟨h.popped, h.calls, h.first_le, h.held, h.nodup, h.inUse, h.waiting, h.waiting_inj, h.cleared, h.tail_none,
    h.tail_some, h.link, h.linking, h.head_none, h.head_some, h.heading⟩

/-! ### The producers -/

omit [DecidableEq N] in
theorem filter_call (l : List (P × N)) (p q : P) (n : N) :
    (l ++ [(p, n)]).filter (·.1 = q) = l.filter (·.1 = q) ++ if q = p then [(p, n)] else [] := by
  rw [filter_append]
  by_cases hq : q = p
  · rw [if_pos hq, filter_cons_of_pos (by simp [hq]), filter_nil]
  · rw [if_neg hq, filter_cons_of_neg (by simp [Ne.symm hq]), filter_nil]

theorem queue_push (h : Queue s out) (hidle : s.producers p = .idle) (hfree : s.inUse n = false) :
    Queue { s.setProducer p (.called n) with inUse := Function.update s.inUse n true, calls := s.calls ++ [(p, n)] } out := by
  have hnew : ∀ i q m, s.popped.length ≤ i → s.order[i]? = some (q, m) → m ≠ n := by
    rintro i q m hi he rfl
    rw [h.inUse i q m hi he] at hfree
    cases hfree
  have hother : ∀ q m, s.Waiting q m → m ≠ n := by
    rintro q m hw rfl
    rw [(h.waiting q m hw).1] at hfree
    cases hfree
  have hwaiting : ∀ q m, Waiting (s.setProducer p (.called n)) q m → q = p ∧ m = n ∨ q ≠ p ∧ s.Waiting q m := by
    rintro q m (hw | hw)
    · obtain ⟨h1, h2⟩ | ⟨h1, h2⟩ := setProducer_eq hw
      · cases h2
        exact .inl ⟨h1, rfl⟩
      · exact .inr ⟨h1, .inl h2⟩
    · obtain ⟨-, h2⟩ | ⟨h1, h2⟩ := setProducer_eq hw
      · cases h2
      · exact .inr ⟨h1, .inr h2⟩
  have hswapped : ∀ q m o, s.producers q = .swapped m o → (s.setProducer p (.called n)).producers q = .swapped m o := by
    intro q m o hq
    rw [setProducer_ne, hq]
    rintro rfl
    rw [hidle] at hq
    cases hq
  have hback : ∀ q m o, (s.setProducer p (.called n)).producers q = .swapped m o → s.producers q = .swapped m o := by
    intro q m o hq
    obtain ⟨-, h2⟩ | ⟨-, h2⟩ := setProducer_eq hq
    · cases h2
    · exact h2
  refine { h with
    calls := fun q => ?_, inUse := fun i q m hi he => ?_, waiting := fun q m hw => ?_, waiting_inj := fun q r m hq hr => ?_
    cleared := fun q m hq => ?_, link := fun k q r m m' hk he he' => ?_, linking := fun q m o hq => h.linking q m o (hback _ _ _ hq)
    head_some := fun q m he => ?_, heading := fun q m hq => h.heading q m (hback _ _ _ hq) }
  · change (s.calls ++ [(p, n)]).filter (·.1 = q) =
      s.order.filter (·.1 = q) ++ call q ((s.setProducer p (.called n)).producers q)
    rw [filter_call, h.calls q]
    by_cases hq : q = p
    · rw [if_pos hq, hq, hidle, setProducer_self]
      simp [call]
    · rw [if_neg hq, List.append_nil, setProducer_ne _ hq]
  · exact (update_of_ne (hnew i q m hi he) ..).trans (h.inUse i q m hi he)
  · obtain ⟨-, rfl⟩ | ⟨-, hw⟩ := hwaiting q m hw
    · exact ⟨update_self .., hnew⟩
    · exact ⟨(update_of_ne (hother q m hw) ..).trans (h.waiting q m hw).1, (h.waiting q m hw).2⟩
  · obtain ⟨h1, h2⟩ | ⟨-, hq⟩ := hwaiting q m hq
    · obtain ⟨h3, -⟩ | ⟨-, hr⟩ := hwaiting r m hr
      · exact h1.trans h3.symm
      · exact absurd h2 (hother r m hr)
    · obtain ⟨-, h4⟩ | ⟨-, hr⟩ := hwaiting r m hr
      · exact absurd h4 (hother q m hq)
      · exact h.waiting_inj q r m hq hr
  · obtain ⟨-, h2⟩ | ⟨-, h2⟩ := setProducer_eq hq
    · cases h2
    · exact h.cleared q m h2
  · exact (h.link k q r m m' hk he he').imp_right fun ⟨h1, h2⟩ => ⟨h1, hswapped _ _ _ h2⟩
  · exact (h.head_some q m he).imp_right fun ⟨h1, h2⟩ => ⟨h1, hswapped _ _ _ h2⟩

theorem queue_clear (h : Queue s out) (hp : s.producers p = .called n) :
    Queue { s.setProducer p (.cleared n) with next := Function.update s.next n none } out := by
  have hnew := (h.waiting p n (.inl hp)).2
  have hnext : ∀ i q m, s.popped.length ≤ i → s.order[i]? = some (q, m) → Function.update s.next n none m = s.next m :=
    fun i q m hi he => update_of_ne (hnew i q m hi he) ..
  have hle : ∀ k, s.first out ≤ k → s.popped.length ≤ k := fun k => Nat.le_trans (Nat.le_add_right ..)
  have hwaiting : ∀ q m, Waiting (s.setProducer p (.cleared n)) q m → s.Waiting q m := by
    rintro q m (hw | hw)
    · obtain ⟨-, h2⟩ | ⟨-, h2⟩ := setProducer_eq hw
      · cases h2
      · exact .inl h2
    · obtain ⟨h1, h2⟩ | ⟨-, h2⟩ := setProducer_eq hw
      · cases h2
        exact h1 ▸ .inl hp
      · exact .inr h2
  have hswapped : ∀ q m o, s.producers q = .swapped m o → (s.setProducer p (.cleared n)).producers q = .swapped m o := by
    intro q m o hq
    rw [setProducer_ne, hq]
    rintro rfl
    rw [hp] at hq
    cases hq
  have hback : ∀ q m o, (s.setProducer p (.cleared n)).producers q = .swapped m o → s.producers q = .swapped m o := by
    intro q m o hq
    obtain ⟨-, h2⟩ | ⟨-, h2⟩ := setProducer_eq hq
    · cases h2
    · exact h2
  refine { h with
    calls := fun q => ?_, waiting := fun q m hw => h.waiting q m (hwaiting q m hw)
    waiting_inj := fun q r m hq hr => h.waiting_inj q r m (hwaiting q m hq) (hwaiting r m hr)
    cleared := fun q m hq => ?_, tail_some := fun k q m hk hlast he => ?_, link := fun k q r m m' hk he he' => ?_
    linking := fun q m o hq => ?_, head_some := fun q m he => ?_
    heading := fun q m hq => h.heading q m (hback _ _ _ hq) }
  · refine (h.calls q).trans ?_
    change _ = s.order.filter (·.1 = q) ++ call q ((s.setProducer p (.cleared n)).producers q)
    by_cases hq : q = p
    · rw [hq, hp, setProducer_self, call, call]
    · rw [setProducer_ne _ hq]
  · obtain ⟨-, h2⟩ | ⟨h1, h2⟩ := setProducer_eq hq
    · cases h2
      exact update_self ..
    · have hne : m ≠ n := by
        rintro rfl
        exact h1 (h.waiting_inj q p m (.inr h2) (.inl hp))
      exact (update_of_ne hne ..).trans (h.cleared q m h2)
  · obtain ⟨h1, h2⟩ := h.tail_some k q m hk hlast he
    exact ⟨h1, (hnext k q m (hle k hk) he).trans h2⟩
  · have hm := hnext k q m (hle k hk) he
    exact (h.link k q r m m' hk he he').imp hm.trans fun ⟨h1, h2⟩ => ⟨hm.trans h1, hswapped _ _ _ h2⟩
  · obtain ⟨k, r, h1, h2, h3, h4⟩ := h.linking q m o (hback _ _ _ hq)
    exact ⟨k, r, h1, h2, h3, (hnext k r m (hle k h1) h2).trans h4⟩
  · exact (h.head_some q m he).imp_right fun ⟨h1, h2⟩ => ⟨h1, hswapped _ _ _ h2⟩

omit [DecidableEq P] [DecidableEq N] in
theorem getElem?_push {l : List (P × N)} {e e' : P × N} {k : ℕ} (h : (l ++ [e])[k]? = some e') :
    l[k]? = some e' ∨ k = l.length ∧ e' = e := by
  obtain hk | hk := Nat.lt_or_ge k l.length
  · rw [List.getElem?_append_left hk] at h
    exact .inl h
  · rw [List.getElem?_append_right hk, List.getElem?_singleton] at h
    split at h
    · exact .inr ⟨by omega, (some.inj h).symm⟩
    · cases h

omit [DecidableEq P] [DecidableEq N] in
theorem getElem?_old {l : List (P × N)} {e : P × N} {k : ℕ} (e' : P × N) (h : l[k]? = some e) :
    (l ++ [e'])[k]? = some e :=
  (List.getElem?_append_left (List.getElem?_eq_some_iff.1 h).1).trans h

theorem queue_swap (h : Queue s out) (hp : s.producers p = .cleared n) :
    Queue { s.setProducer p (.swapped n s.tail) with tail := some n, order := s.order ++ [(p, n)] } out := by
  have hnew := (h.waiting p n (.inr hp)).2
  have hle : ∀ k, s.first out ≤ k → s.popped.length ≤ k := fun k => Nat.le_trans (Nat.le_add_right ..)
  have hlast : (s.order ++ [(p, n)])[s.order.length]? = some (p, n) := List.getElem?_concat_length
  have hlen : (s.order ++ [(p, n)]).length = s.order.length + 1 := by rw [length_append]; rfl
  have hwaiting : ∀ q m, Waiting (s.setProducer p (.swapped n s.tail)) q m → q ≠ p ∧ s.Waiting q m := by
    rintro q m (hw | hw)
    · obtain ⟨-, h2⟩ | ⟨h1, h2⟩ := setProducer_eq hw
      · cases h2
      · exact ⟨h1, .inl h2⟩
    · obtain ⟨-, h2⟩ | ⟨h1, h2⟩ := setProducer_eq hw
      · cases h2
      · exact ⟨h1, .inr h2⟩
  have hswapped : ∀ q m o, s.producers q = .swapped m o →
      (s.setProducer p (.swapped n s.tail)).producers q = .swapped m o := by
    intro q m o hq
    rw [setProducer_ne, hq]
    rintro rfl
    rw [hp] at hq
    cases hq
  refine { h with
    popped := ?_, calls := fun q => ?_, first_le := ?_, held := fun a ha => ?_, nodup := fun i j q r m hi hj he he' => ?_
    inUse := fun i q m hi he => ?_, waiting := fun q m hw => ?_
    waiting_inj := fun q r m hq hr => h.waiting_inj q r m (hwaiting q m hq).2 (hwaiting r m hr).2
    cleared := fun q m hq => ?_, tail_none := fun e => ?_, tail_some := fun k q m hk e he => ?_
    link := fun k q r m m' hk he he' => ?_, linking := fun q m o hq => ?_, head_none := fun e => ?_
    head_some := fun q m he => ?_, heading := fun q m hq => ?_ }
  · change s.popped <+: (s.order ++ [(p, n)]).map Prod.snd
    rw [map_append]
    exact h.popped.trans (prefix_append ..)
  · refine (h.calls q).trans ?_
    change _ = (s.order ++ [(p, n)]).filter (·.1 = q) ++ call q ((s.setProducer p (.swapped n s.tail)).producers q)
    rw [filter_call]
    by_cases hq : q = p
    · rw [hq, hp, setProducer_self, if_pos rfl]
      exact (List.append_nil _).symm
    · rw [setProducer_ne _ hq, if_neg hq, List.append_nil]
  · exact Nat.le_trans h.first_le (by rw [length_append]; exact Nat.le_add_right ..)
  · obtain ⟨q, hq⟩ := h.held a ha
    exact ⟨q, getElem?_old _ hq⟩
  · obtain he | ⟨hi', he⟩ := getElem?_push he
    · obtain he' | ⟨-, he'⟩ := getElem?_push he'
      · exact h.nodup i j q r m hi hj he he'
      · exact absurd (congrArg Prod.snd he') (hnew i q m hi he)
    · obtain he' | ⟨hj', -⟩ := getElem?_push he'
      · exact absurd (congrArg Prod.snd he) (hnew j r m hj he')
      · exact hi'.trans hj'.symm
  · obtain he | ⟨-, he⟩ := getElem?_push he
    · exact h.inUse i q m hi he
    · rw [show m = n from congrArg Prod.snd he]
      exact (h.waiting p n (.inr hp)).1
  · obtain ⟨h1, h2⟩ := hwaiting q m hw
    refine ⟨(h.waiting q m h2).1, fun i r a hi he => ?_⟩
    obtain he | ⟨-, he⟩ := getElem?_push he
    · exact (h.waiting q m h2).2 i r a hi he
    · have ha : a = n := congrArg Prod.snd he
      rintro rfl
      exact h1 (h.waiting_inj q p a h2 (.inr (ha ▸ hp)))
  · obtain ⟨-, h2⟩ | ⟨-, h2⟩ := setProducer_eq hq
    · cases h2
    · exact h.cleared q m h2
  · have hfirst : s.first out = s.order.length + 1 := hlen ▸ e
    have := h.first_le
    omega
  · have hk' : k = s.order.length := Nat.succ.inj (e.trans hlen)
    rw [hk'] at he
    obtain rfl : m = n := congrArg Prod.snd (some.inj (he.symm.trans hlast))
    exact ⟨rfl, h.cleared p m hp⟩
  · have hk' : k + 1 < s.order.length + 1 := by
      have := (List.getElem?_eq_some_iff.1 he').1
      rwa [hlen] at this
    have hold : s.order[k]? = some (q, m) := by
      obtain he | ⟨e, -⟩ := getElem?_push he
      · exact he
      · omega
    obtain he' | ⟨e, he'⟩ := getElem?_push he'
    · exact (h.link k q r m m' hk hold he').imp_right fun ⟨h1, h2⟩ => ⟨h1, hswapped _ _ _ h2⟩
    · cases he'
      obtain ⟨h1, h2⟩ := h.tail_some k q m hk e hold
      refine .inr ⟨h2, ?_⟩
      rw [← h1]
      exact setProducer_self ..
  · obtain ⟨rfl, h2⟩ | ⟨-, h2⟩ := setProducer_eq hq
    · -- The old tail is the last node, which is linked next.
      injection h2 with hm ho
      subst hm
      have hlt : s.first out < s.order.length := by
        refine Nat.lt_of_le_of_ne h.first_le fun e => ?_
        rw [h.tail_none e] at ho
        cases ho
      obtain ⟨⟨r, a⟩, hr⟩ : ∃ e, s.order[s.order.length - 1]? = some e :=
        ⟨_, List.getElem?_eq_getElem (by omega)⟩
      obtain ⟨h3, h4⟩ := h.tail_some (s.order.length - 1) r a (by omega) (by omega) hr
      rw [h3] at ho
      cases ho
      refine ⟨s.order.length - 1, r, Nat.le_sub_one_of_lt hlt, getElem?_old _ hr, ?_, h4⟩
      rw [show s.order.length - 1 + 1 = s.order.length by omega]
      exact hlast
    · obtain ⟨k, r, h3, h4, h5, h6⟩ := h.linking q m o h2
      exact ⟨k, r, h3, getElem?_old _ h4, getElem?_old _ h5, h6⟩
  · have hfirst : s.first out = s.order.length + 1 := hlen ▸ e
    have := h.first_le
    omega
  · obtain he | ⟨e, he⟩ := getElem?_push he
    · exact (h.head_some q m he).imp_right fun ⟨h1, h2⟩ => ⟨h1, hswapped _ _ _ h2⟩
    · cases he
      refine .inr ⟨h.head_none e, ?_⟩
      rw [← h.tail_none e]
      exact setProducer_self ..
  · obtain ⟨rfl, h2⟩ | ⟨-, h2⟩ := setProducer_eq hq
    · injection h2 with hm ho
      subst hm
      have he : s.first out = s.order.length := by
        by_contra hne
        obtain ⟨⟨r, a⟩, hr⟩ : ∃ e, s.order[s.order.length - 1]? = some e :=
          ⟨_, List.getElem?_eq_getElem (by have := h.first_le; omega)⟩
        have := h.first_le
        rw [(h.tail_some (s.order.length - 1) r a (by omega) (by omega) hr).1] at ho
        cases ho
      refine ⟨?_, h.head_none he⟩
      rw [show first { s.setProducer q (.swapped n s.tail) with tail := some n, order := s.order ++ [(q, n)] } out =
        s.order.length from he]
      exact hlast
    · obtain ⟨h3, h4⟩ := h.heading q m h2
      exact ⟨getElem?_old _ h3, h4⟩

omit [DecidableEq N] in
theorem setIdle_frames (hp : ∃ m o, s.producers p = .swapped m o) :
    (∀ q m, Waiting (s.setProducer p .idle) q m → s.Waiting q m) ∧
    (∀ q m, (s.setProducer p .idle).producers q = .cleared m → s.producers q = .cleared m) ∧
    (∀ q, call q ((s.setProducer p .idle).producers q) = call q (s.producers q)) ∧
    (∀ q m o, (s.setProducer p .idle).producers q = .swapped m o → q ≠ p ∧ s.producers q = .swapped m o) ∧
    ∀ q m o, q ≠ p → s.producers q = .swapped m o → (s.setProducer p .idle).producers q = .swapped m o := by
  obtain ⟨m', o', hp⟩ := hp
  refine ⟨?_, fun q m hq => ?_, fun q => ?_, fun q m o hq => ?_, fun q m o hne hq => ?_⟩
  · rintro q m (hw | hw)
    · obtain ⟨-, h2⟩ | ⟨-, h2⟩ := setProducer_eq hw
      · cases h2
      · exact .inl h2
    · obtain ⟨-, h2⟩ | ⟨-, h2⟩ := setProducer_eq hw
      · cases h2
      · exact .inr h2
  · obtain ⟨-, h2⟩ | ⟨-, h2⟩ := setProducer_eq hq
    · cases h2
    · exact h2
  · by_cases hq : q = p
    · rw [hq, setProducer_self, hp]
      rfl
    · rw [setProducer_ne _ hq]
  · obtain ⟨-, h2⟩ | h := setProducer_eq hq
    · cases h2
    · exact h
  · rw [setProducer_ne _ hne, hq]

theorem queue_link (h : Queue s out) {o : N} (hp : s.producers p = .swapped n (some o)) :
    Queue { s.setProducer p .idle with next := Function.update s.next o (some n) } out := by
  obtain ⟨hwaiting, hcleared, hcall, hback, hkeep⟩ := setIdle_frames ⟨n, some o, hp⟩
  obtain ⟨k₀, r₀, hk₀, ho, hn, hnone⟩ := h.linking p o n hp
  have hle : ∀ k, s.first out ≤ k → s.popped.length ≤ k := fun k => Nat.le_trans (Nat.le_add_right ..)
  have hne : ∀ k q m, s.first out ≤ k → s.order[k]? = some (q, m) → k ≠ k₀ → m ≠ o := by
    rintro k q m hk he hkk rfl
    exact hkk (h.nodup k k₀ q r₀ m (hle k hk) (hle k₀ hk₀) he ho)
  have hnext : ∀ k q m, s.first out ≤ k → s.order[k]? = some (q, m) → k ≠ k₀ →
      Function.update s.next o (some n) m = s.next m :=
    fun k q m hk he hkk => update_of_ne (hne k q m hk he hkk) ..
  have hlt : k₀ + 1 < s.order.length := (List.getElem?_eq_some_iff.1 hn).1
  refine { h with
    calls := fun q => (h.calls q).trans (by rw [← hcall]; rfl)
    waiting := fun q m hw => h.waiting q m (hwaiting q m hw)
    waiting_inj := fun q r m hq hr => h.waiting_inj q r m (hwaiting q m hq) (hwaiting r m hr)
    cleared := fun q m hq => ?_, tail_some := fun k q m hk hlast he => ?_, link := fun k q r m m' hk he he' => ?_
    linking := fun q a m hq => ?_, head_some := fun q m he => ?_
    heading := fun q m hq => h.heading q m (hback q m none hq).2 }
  · have hq' := hcleared q m hq
    have hmo : m ≠ o := fun e => (h.waiting q m (.inr hq')).2 k₀ r₀ o (hle k₀ hk₀) ho e.symm
    exact (update_of_ne hmo ..).trans (h.cleared q m hq')
  · obtain ⟨h1, h2⟩ := h.tail_some k q m hk hlast he
    have hlast' : k + 1 = s.order.length := hlast
    exact ⟨h1, (hnext k q m hk he (by omega)).trans h2⟩
  · by_cases hkk : k = k₀
    · subst hkk
      obtain rfl : m = o := congrArg Prod.snd (some.inj (he.symm.trans ho))
      obtain rfl : m' = n := congrArg Prod.snd (some.inj (he'.symm.trans hn))
      exact .inl (update_self ..)
    · have hm := hnext k q m hk he hkk
      refine (h.link k q r m m' hk he he').imp hm.trans fun ⟨h1, h2⟩ => ⟨hm.trans h1, hkeep r m' _ ?_ h2⟩
      rintro rfl
      rw [hp] at h2
      injection h2 with _ ha
      exact hne k q m hk he hkk (some.inj ha).symm
  · obtain ⟨hqp, hq'⟩ := hback q m (some a) hq
    obtain ⟨k, r, h1, h2, h3, h4⟩ := h.linking q a m hq'
    have hkk : k ≠ k₀ := by
      rintro rfl
      exact hqp (congrArg Prod.fst (some.inj (h3.symm.trans hn)))
    exact ⟨k, r, h1, h2, h3, (hnext k r a h1 h2 hkk).trans h4⟩
  · refine (h.head_some q m he).imp_right fun ⟨h1, h2⟩ => ⟨h1, hkeep q m _ ?_ h2⟩
    rintro rfl
    rw [hp] at h2
    cases h2

omit [DecidableEq N] in
theorem queue_head (h : Queue s out) (hp : s.producers p = .swapped n none) :
    Queue { s.setProducer p .idle with head := some n } out := by
  obtain ⟨hwaiting, hcleared, hcall, hback, hkeep⟩ := setIdle_frames ⟨n, none, hp⟩
  obtain ⟨hfirst, -⟩ := h.heading p n hp
  refine { h with
    calls := fun q => (h.calls q).trans (by rw [← hcall]; rfl)
    waiting := fun q m hw => h.waiting q m (hwaiting q m hw)
    waiting_inj := fun q r m hq hr => h.waiting_inj q r m (hwaiting q m hq) (hwaiting r m hr)
    cleared := fun q m hq => h.cleared q m (hcleared q m hq)
    link := fun k q r m m' hk he he' => ?_, linking := fun q a m hq => h.linking q a m (hback q m _ hq).2
    head_none := fun e => ?_, head_some := fun q m he => ?_, heading := fun q m hq => ?_ }
  · refine (h.link k q r m m' hk he he').imp_right fun ⟨h1, h2⟩ => ⟨h1, hkeep r m' _ ?_ h2⟩
    rintro rfl
    rw [hp] at h2
    cases h2
  · exact absurd (List.getElem?_eq_some_iff.1 hfirst).1 (Nat.not_lt.2 (Nat.le_of_eq (Eq.symm e)))
  · exact .inl (congrArg (some ∘ Prod.snd) (some.inj (hfirst.symm.trans he)))
  · obtain ⟨hqp, hq'⟩ := hback q m none hq
    exact absurd (congrArg Prod.fst (some.inj ((h.heading q m hq').1.symm.trans hfirst))) hqp

/-! ### The consumer -/

omit [DecidableEq N] in
theorem knows_of_head (h : Queue s none) {a : N} (ha : s.head = some a) :
    ∃ p, s.order[s.popped.length]? = some (p, a) := by
  have hstale : ¬s.Stale none := by
    rintro (e | e) <;>
    · rw [ha] at e
      cases e
  have hlt : s.popped.length < s.order.length :=
    Nat.lt_of_le_of_ne h.first_le fun e => hstale (h.head_none e)
  obtain ⟨⟨q, m⟩, he⟩ : ∃ e, s.order[s.popped.length]? = some e := ⟨_, List.getElem?_eq_getElem hlt⟩
  obtain h1 | ⟨h1, -⟩ := h.head_some q m he
  · rw [ha] at h1
    cases h1
    exact ⟨q, he⟩
  · exact absurd h1 hstale

omit [DecidableEq N] in
theorem knows_of_next (h : Queue s none) {a m : N} (hk : ∃ p, s.order[s.popped.length]? = some (p, a))
    (hn : s.next a = some m) : ∃ p, s.order[s.popped.length + 1]? = some (p, m) := by
  obtain ⟨p, hp⟩ := hk
  have hlt := (List.getElem?_eq_some_iff.1 hp).1
  obtain hlast | hmore := Nat.eq_or_lt_of_le (Nat.succ_le_of_lt hlt)
  · rw [(h.tail_some _ p a (Nat.le_refl _) hlast hp).2] at hn
    cases hn
  · obtain ⟨⟨q, b⟩, hq⟩ : ∃ e, s.order[s.popped.length + 1]? = some e := ⟨_, List.getElem?_eq_getElem hmore⟩
    obtain h1 | ⟨h1, -⟩ := h.link _ p q a b (Nat.le_refl _) hp hq
    · rw [hn] at h1
      cases h1
      exact ⟨q, hq⟩
    · rw [hn] at h1
      cases h1

omit [DecidableEq N] in
theorem queue_empty (h : Queue s none) {a : N} (hk : ∃ p, s.order[s.popped.length]? = some (p, a))
    (ha : s.head = some a) (ht : s.tail = some a) : Queue { s with tail := none } (some a) := by
  obtain ⟨p, hp⟩ := hk
  have hlt := (List.getElem?_eq_some_iff.1 hp).1
  -- It is the last.
  have hlast : s.popped.length + 1 = s.order.length := by
    obtain ⟨⟨q, b⟩, hq⟩ : ∃ e, s.order[s.order.length - 1]? = some e := ⟨_, List.getElem?_eq_getElem (by omega)⟩
    have h1 := (h.tail_some (s.order.length - 1) q b (Nat.le_sub_one_of_lt hlt) (by omega) hq).1
    rw [ht] at h1
    cases h1
    have := h.nodup _ _ p q a (Nat.le_refl _) (Nat.le_sub_one_of_lt hlt) hp hq
    omega
  have hout : ∀ {k : ℕ} {e : P × N}, s.popped.length + 1 ≤ k → s.order[k]? ≠ some e := fun hk he =>
    Nat.not_lt.2 (hlast ▸ hk) (List.getElem?_eq_some_iff.1 he).1
  have hstale : ¬s.Stale none := by
    rintro (e | e) <;>
    · rw [ha] at e
      cases e
  refine { h with
    first_le := Nat.le_of_eq hlast, held := fun b hb => ⟨p, some.inj hb ▸ hp⟩, tail_none := fun _ => rfl
    tail_some := fun k q m hk _ he => absurd he (hout hk), link := fun k q r m m' hk he _ => absurd he (hout hk)
    linking := fun q b m hq => ?_, head_none := fun _ => .inr ha, head_some := fun q m he => absurd he (hout (Nat.le_refl _))
    heading := fun q m hq => absurd (h.heading q m hq).2 hstale }
  obtain ⟨k, r, h1, -, h3, -⟩ := h.linking q b m hq
  exact absurd h3 (hout (Nat.succ_le_succ h1))

theorem queue_ret (h : Queue s out) {a : N} {head : Option N} (ha : ∃ p, s.order[s.popped.length]? = some (p, a))
    (hout : s.first out ≤ s.popped.length + 1) (htail : s.popped.length + 1 = s.order.length → s.tail = none)
    (hlinking : ∀ q n m, s.producers q = .swapped m (some n) → n ≠ a)
    (hnone : s.popped.length + 1 = s.order.length → head = none)
    (hsome : ∀ p n, s.order[s.popped.length + 1]? = some (p, n) →
      head = some n ∨ head = none ∧ s.producers p = .swapped n none)
    (hheading : ∀ p n, s.producers p = .swapped n none → s.order[s.popped.length + 1]? = some (p, n) ∧ head = none) :
    Queue (s.ret head a) none := by
  obtain ⟨p, ha⟩ := ha
  have hlen : (s.popped ++ [a]).length = s.popped.length + 1 := by rw [length_append]; rfl
  have hfirst : (s.ret head a).first none = s.popped.length + 1 := hlen
  have hlt := (List.getElem?_eq_some_iff.1 ha).1
  have hne : ∀ i q n, s.popped.length + 1 ≤ i → s.order[i]? = some (q, n) → n ≠ a := by
    rintro i q n hi he rfl
    have := h.nodup _ _ q p n (Nat.le_of_succ_le hi) (Nat.le_refl _) he ha
    omega
  have hle : ∀ k, (s.ret head a).first none ≤ k → s.popped.length + 1 ≤ k ∧ s.first out ≤ k := fun k hk => by
    rw [hfirst] at hk
    exact ⟨hk, Nat.le_trans hout hk⟩
  have hle' : ∀ k, (s.ret head a).popped.length ≤ k → s.popped.length + 1 ≤ k := fun k hk => hlen ▸ hk
  refine { h with
    popped := ?_, first_le := hfirst ▸ Nat.succ_le_of_lt hlt, held := nofun
    nodup := fun i j q r m hi hj => h.nodup i j q r m (Nat.le_of_succ_le (hle' i hi)) (Nat.le_of_succ_le (hle' j hj))
    inUse := fun i q m hi he => ?_, waiting := fun q m hw => ?_, tail_none := fun e => htail (hfirst.symm.trans e)
    tail_some := fun k q m hk => h.tail_some k q m (hle k hk).2, link := fun k q r m m' hk => h.link k q r m m' (hle k hk).2
    linking := fun q m b hq => ?_, head_none := fun e => .inl (hnone (hfirst.symm.trans e)), head_some := fun q m he => ?_
    heading := fun q m hq => ?_ }
  · obtain ⟨t, ht⟩ := h.popped
    have hget : s.pushed[s.popped.length]? = some a := by
      rw [pushed, List.getElem?_map, ha]
      rfl
    rw [← ht, List.getElem?_append_right (Nat.le_refl _), Nat.sub_self] at hget
    obtain ⟨t', rfl⟩ : ∃ t', t = a :: t' := by
      cases t with
      | nil => cases hget
      | cons b t' => exact ⟨t', by rw [some.inj hget]⟩
    exact ⟨t', (append_cons ..).symm.trans ht⟩
  · exact (update_of_ne (hne i q m (hle' i hi) he) ..).trans
      (h.inUse i q m (Nat.le_of_succ_le (hle' i hi)) he)
  · obtain ⟨h1, h2⟩ := h.waiting q m hw
    refine ⟨(update_of_ne (Ne.symm (h2 _ p a (Nat.le_refl _) ha)) ..).trans h1, fun i r b hi he => ?_⟩
    exact h2 i r b (Nat.le_of_succ_le (hle' i hi)) he
  · obtain ⟨k, r, h1, h2, h3, h4⟩ := h.linking q m b hq
    refine ⟨k, r, ?_, h2, h3, h4⟩
    rw [hfirst]
    refine Nat.lt_of_le_of_ne (Nat.le_trans (Nat.le_add_right ..) h1) ?_
    rintro rfl
    exact hlinking q m b hq (congrArg Prod.snd (some.inj (h2.symm.trans ha)))
  · rw [hfirst] at he
    exact (hsome q m he).imp_right fun ⟨h1, h2⟩ => ⟨.inl h1, h2⟩
  · obtain ⟨h1, h2⟩ := hheading q m hq
    exact ⟨hfirst ▸ h1, .inl h2⟩

/-! ### The runs -/

omit [DecidableEq P] [DecidableEq N] in
theorem knows_congr {c : PopState N} (h : s.Knows c) (hhead : s'.head = s.head) (hpopped : s'.popped = s.popped)
    (horder : ∀ (k : ℕ) (e : P × N), s.order[k]? = some e → s'.order[k]? = some e)
    (hnext : ∀ p a m, s.order[s.popped.length]? = some (p, a) → s.next a = some m → s'.next a = some m) : s'.Knows c := by
  cases c with
  | idle | emptied a => trivial
  | loaded a | single a =>
    obtain ⟨h1, p, h2⟩ := h
    exact ⟨hhead.trans h1, p, hpopped ▸ horder _ _ h2⟩
  | spinning a =>
    obtain ⟨h1, ⟨p, h2⟩, e, h3⟩ := h
    exact ⟨hhead.trans h1, ⟨p, hpopped ▸ horder _ _ h2⟩, e, hpopped ▸ horder _ _ h3⟩
  | advancing a m =>
    obtain ⟨h1, ⟨p, h2⟩, h3, q, h4⟩ := h
    exact ⟨hhead.trans h1, ⟨p, hpopped ▸ horder _ _ h2⟩, hnext p a m h2 h3, q, hpopped ▸ horder _ _ h4⟩

omit [DecidableEq P] [DecidableEq N] in
theorem knows_of_stale {c : PopState N} (h : s.Knows c) (hs : s.Stale (taken c)) : c = .idle ∨ ∃ a, c = .emptied a := by
  have hno : ∀ a, s.head = some a → ¬s.Stale none := by
    rintro a ha (e | e) <;>
    · rw [ha] at e
      cases e
  cases c with
  | idle => exact .inl rfl
  | emptied a => exact .inr ⟨a, rfl⟩
  | loaded a | single a | spinning a | advancing a m => exact absurd hs (hno a h.1)

theorem inv_stepProducer (h : Inv s) (hs : s.stepProducer p = some s') : Inv s' := by
  rw [stepProducer] at hs
  cases hp : s.producers p with
  | idle =>
    rw [hp] at hs
    cases hs
  | called n =>
    rw [hp] at hs
    cases hs
    refine ⟨queue_clear h.queue hp, knows_congr h.knows rfl rfl (fun _ _ => id) fun q a m he hn => ?_⟩
    have hne := (h.queue.waiting p n (.inl hp)).2 _ q a (Nat.le_refl _) he
    exact (update_of_ne hne ..).trans hn
  | cleared n =>
    rw [hp] at hs
    cases hs
    exact ⟨queue_swap h.queue hp, knows_congr h.knows rfl rfl (fun _ _ => getElem?_old _) fun _ _ _ _ => id⟩
  | swapped n old =>
    cases old with
    | none =>
      rw [hp] at hs
      cases hs
      refine ⟨queue_head h.queue hp, ?_⟩
      obtain hc | ⟨a, hc⟩ := knows_of_stale h.knows (h.queue.heading p n hp).2
      all_goals
        change Knows _ s.consumer
        rw [hc]
        trivial
    | some o =>
      rw [hp] at hs
      cases hs
      refine ⟨queue_link h.queue hp, knows_congr h.knows rfl rfl (fun _ _ => id) fun q a m _ hn => ?_⟩
      have hne : a ≠ o := by
        rintro rfl
        obtain ⟨_, _, _, _, _, hnone⟩ := h.queue.linking p a n hp
        rw [hnone] at hn
        cases hn
      exact (update_of_ne hne ..).trans hn

theorem inv_stepConsumer (h : Inv s) : Inv s.stepConsumer := by
  obtain ⟨hq, hk⟩ := h
  have hcons : ∀ c, taken s.consumer = none → taken c = none → Knows s c → Inv { s with consumer := c } :=
    fun c h1 h2 h3 => ⟨by rw [h2, ← h1]; exact hq.withConsumer c, knows_congr h3 rfl rfl (fun _ _ => id) fun _ _ _ _ => id⟩
  rw [stepConsumer]
  split
  · next hc =>
    rw [hc] at hq
    split
    · exact ⟨hc ▸ hq, hk⟩
    · next a hh => exact hcons (.loaded a) (by rw [hc]; rfl) rfl ⟨hh, knows_of_head hq hh⟩
  · next a hc =>
    rw [hc] at hq hk
    obtain ⟨hh, hp⟩ := hk
    split
    · exact hcons (.single a) (by rw [hc]; rfl) rfl ⟨hh, hp⟩
    · next m hn => exact hcons (.advancing a m) (by rw [hc]; rfl) rfl ⟨hh, hp, hn, knows_of_next hq hp hn⟩
  · next a hc =>
    rw [hc] at hq hk
    obtain ⟨hh, hp⟩ := hk
    split
    · next ht => exact ⟨(queue_empty hq hp hh ht).withConsumer _, trivial⟩
    · next ht =>
      -- The tail is another node, so that there is a next one.
      refine hcons (.spinning a) (by rw [hc]; rfl) rfl ⟨hh, hp, ?_⟩
      obtain ⟨p, hp⟩ := hp
      have hlt := (List.getElem?_eq_some_iff.1 hp).1
      obtain hlast | hmore := Nat.eq_or_lt_of_le (Nat.succ_le_of_lt hlt)
      · exact absurd (hq.tail_some _ p a (Nat.le_refl _) hlast hp).1 ht
      · exact ⟨_, List.getElem?_eq_getElem hmore⟩
  · next a hc =>
    rw [hc] at hq hk
    split
    · exact ⟨hc ▸ hq, by rw [hc]; exact hk⟩
    · next m hn =>
      obtain ⟨hh, hp, -⟩ := hk
      exact hcons (.advancing a m) (by rw [hc]; rfl) rfl ⟨hh, hp, hn, knows_of_next hq hp hn⟩
  · next a m hc =>
    rw [hc] at hq hk
    obtain ⟨hh, hp, hn, q, hm⟩ := hk
    have hstale : ¬s.Stale none := by
      rintro (e | e) <;>
      · rw [hh] at e
        cases e
    have hlt := (List.getElem?_eq_some_iff.1 hm).1
    refine ⟨queue_ret hq hp (Nat.le_succ _) (fun e => absurd hlt (by omega)) ?_ (fun e => absurd hlt (by omega)) ?_ ?_, trivial⟩
    · rintro q b l hl rfl
      obtain ⟨_, _, _, _, _, hnone⟩ := hq.linking q b l hl
      rw [hnone] at hn
      cases hn
    · intro r l he
      exact .inl (congrArg (some ∘ Prod.snd) (some.inj (hm.symm.trans he)))
    · intro r l hr
      exact absurd (hq.heading r l hr).2 hstale
  · next a hc =>
    rw [hc] at hq
    have ha := hq.held a rfl
    have hstale : s.Stale (some a) → (if s.head = some a then none else s.head) = none := by
      rintro (e | e)
      · rw [e]
        exact ite_self none
      · exact if_pos e
    refine ⟨queue_ret hq ha (Nat.le_refl _) hq.tail_none ?_ (fun e => hstale (hq.head_none e)) ?_ ?_, trivial⟩
    · rintro r b l hl rfl
      obtain ⟨k, q, h1, h2, -⟩ := hq.linking r b l hl
      obtain ⟨p, hp⟩ := ha
      have := hq.nodup k _ q p b (Nat.le_of_succ_le h1) (Nat.le_refl _) h2 hp
      rw [this] at h1
      exact Nat.lt_irrefl _ h1
    · intro r l he
      obtain h1 | ⟨h1, h2⟩ := hq.head_some r l he
      · have hne : s.head ≠ some a := by
          intro e
          rw [h1] at e
          cases e
          obtain ⟨p, hp⟩ := ha
          have := hq.nodup _ _ r p a (Nat.le_succ _) (Nat.le_refl _) he hp
          omega
        rw [if_neg hne]
        exact .inl h1
      · exact .inr ⟨hstale h1, h2⟩
    · intro r l hr
      obtain ⟨h1, h2⟩ := hq.heading r l hr
      exact ⟨h1, hstale h2⟩

theorem inv_step {a : Act P N} (h : Inv s) (hs : s.step a = some s') : Inv s' := by
  cases a with
  | push p n =>
    rw [step] at hs
    split at hs
    · next hg =>
      cases hs
      exact ⟨queue_push h.queue hg.1 hg.2, knows_congr h.knows rfl rfl (fun _ _ => id) fun _ _ _ _ => id⟩
    · cases hs
  | producer p => exact inv_stepProducer h hs
  | consumer =>
    cases hs
    exact inv_stepConsumer h

omit [DecidableEq N] in
theorem linked_of_getElem? {next : N → Option N} : ∀ {l : List N}, (∀ k n, l[k]? = some n → next n = l[k + 1]?) →
    Linked next l[0]? l
  | [], _ => rfl
  | n :: l, h => by
    refine ⟨rfl, ?_⟩
    rw [h 0 n rfl]
    exact linked_of_getElem? fun k m hk => h (k + 1) m hk

omit [DecidableEq N] in
theorem Inv.isLossless (h : Inv s) : s.Lossless where
  popped := h.queue.popped
  calls p := by
    rw [h.queue.calls p]
    exact prefix_append ..
  all hquiet p := by
    rw [h.queue.calls p, hquiet.1 p]
    exact (List.append_nil _).symm
  linked hquiet := by
    obtain ⟨hidle, hc⟩ := hquiet
    have hq := h.queue
    rw [hc] at hq
    have hget : ∀ k, (s.pushed.drop s.popped.length)[k]? = (s.order[s.popped.length + k]?).map Prod.snd := fun k => by
      rw [List.getElem?_drop, pushed, List.getElem?_map]
    have hnext : ∀ k p n, s.popped.length ≤ k → s.order[k]? = some (p, n) → s.next n = (s.order[k + 1]?).map Prod.snd := by
      intro k p n hk he
      cases he' : s.order[k + 1]? with
      | none =>
        have h1 := (List.getElem?_eq_some_iff.1 he).1
        have h2 := List.getElem?_eq_none_iff.1 he'
        exact (hq.tail_some k p n hk (by omega) he).2
      | some e =>
        obtain h1 | ⟨-, h2⟩ := hq.link k p e.1 n e.2 hk he he'
        · exact h1
        · rw [hidle] at h2
          cases h2
    have hhead : s.head = (s.pushed.drop s.popped.length)[0]? := by
      rw [hget]
      cases he : s.order[s.popped.length + 0]? with
      | none =>
        have h1 := hq.first_le
        exact (hq.head_none (Nat.le_antisymm h1 (List.getElem?_eq_none_iff.1 he))).elim id id
      | some e =>
        obtain h1 | ⟨-, h2⟩ := hq.head_some e.1 e.2 he
        · exact h1
        · rw [hidle] at h2
          cases h2
    constructor
    · rw [hhead]
      refine linked_of_getElem? fun k n hk => ?_
      rw [hget] at hk ⊢
      obtain ⟨⟨p, m⟩, he, rfl⟩ := map_eq_some_iff.1 hk
      exact hnext _ p m (Nat.le_add_right ..) he
    · rw [List.getLast?_eq_getElem?, hget, length_drop, pushed, length_map]
      obtain hlast | hmore := Nat.eq_or_lt_of_le hq.first_le
      · rw [hq.tail_none hlast, List.getElem?_eq_none (by have : s.popped.length = s.order.length := hlast; omega)]
        rfl
      · have hlt : s.popped.length < s.order.length := hmore
        obtain ⟨⟨p, n⟩, he⟩ : ∃ e, s.order[s.order.length - 1]? = some e := ⟨_, List.getElem?_eq_getElem (by omega)⟩
        rw [(hq.tail_some _ p n (Nat.le_sub_one_of_lt hlt) (by omega) he).1,
          show s.popped.length + (s.order.length - s.popped.length - 1) = s.order.length - 1 by omega, he]
        rfl

/-- In every state that any interleaving of the steps reaches, from an empty queue. -/
theorem lossless (next : N → Option N) (h : Run step (fun _ _ => True) ({ next } : Mpsc P N) s) : s.Lossless :=
  (h.preserves (fun _ _ _ hi _ hs => inv_step hi hs) (inv_init next)).isLossless

/-- Two producers and the consumer, which finds the link of its node missing and waits for it. -/
theorem lossless_two : ∃ s : Mpsc Bool ℕ, s.Lossless ∧
    decide (s.popped = [1, 2] ∧ s.head = none ∧ s.tail = none) = true := by
  have hreplay : replay step (fun _ _ => true)
      (fun s : Mpsc Bool ℕ => decide (s.popped = [1, 2] ∧ s.head = none ∧ s.tail = none)) { next := fun _ => none }
      [.push true 1, .producer true, .producer true, .push false 2, .producer false, .producer true, .consumer,
        .consumer, .producer false, .consumer, .consumer, .producer false, .consumer, .consumer, .consumer, .consumer,
        .consumer, .consumer] = true := by
    decide +kernel
  obtain ⟨s, hs, hp⟩ := exists_run_of_replay step (fun _ _ => True) _ _ (fun _ _ _ => trivial) hreplay
  exact ⟨s, lossless _ hs, hp⟩

end Mpsc

end Libx.Base
