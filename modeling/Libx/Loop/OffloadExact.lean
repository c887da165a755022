import Libx.Loop.OffloadPlace

/-!
# Libx.Loop.OffloadExact — an item is in one hand

From its making until it is recycled an item is at one place, and the queue, the loop, the pool and the Cancels have the
items that are at theirs.
-/

namespace Libx.Loop

open List Function Option

namespace OffloadLoop

open Libx.Core (Run replay exists_run_of_replay)

/-- The item `a` is at the place `p`. -/
def HeldAt (calls : List Call) (place : ℕ → Place) (p : Place) (a : ℕ) : Prop :=
  ∃ (k : ℕ) (c : Call), calls[k]? = some c ∧ c.item = a ∧ place k = p

/-- The Cancels that are under way. -/
structure Cancelling (calls : List Call) (place : ℕ → Place) (cancels : List Canceller) : Prop where
  call : ∀ x ∈ cancels, x.stage ≠ .returned →
    x.task = some x.call ∧ ∃ c, calls[x.call]? = some c ∧ c.isPost = false ∧ c.stage = .accepted
  won : ∀ i x, cancels[i]? = some x → x.stage = .won → place x.call = .canceller i
  place : ∀ k i, place k = .canceller i → ∃ x, cancels[i]? = some x ∧ x.call = k ∧ x.stage = .won

structure Inv (s : OffloadLoop) (place : ℕ → Place) : Prop where
  safe : s.misused = false
  at_ : ∀ (k : ℕ) (c : Call), s.calls[k]? = some c → At (s.works c.item) k c (place k)
  made : ∀ (k : ℕ) (c : Call), s.calls[k]? = some c → s.made c.item = true
  queue : s.queue.Nodup ∧ ∀ a, a ∈ s.queue ↔ HeldAt s.calls place .queue a
  frames : (s.frames.map Frame.item).Nodup ∧
    ∀ a st, { item := a, stage := st } ∈ s.frames ↔ HeldAt s.calls place (.frame st) a
  pool : s.pool.Nodup ∧ ∀ a ∈ s.pool, s.made a = true ∧ ∀ p, HeldAt s.calls place p a → p = .gone
  cancels : Cancelling s.calls place s.cancels
  inflight : s.inflight = s.calls.countP Call.outstanding

theorem inv_init : Inv ({} : OffloadLoop) fun _ => .gone where
  safe := rfl
  at_ k c h := absurd h (by simp)
  made k c h := absurd h (by simp)
  queue := ⟨nodup_nil, fun a => ⟨nofun, fun ⟨k, c, h, _⟩ => absurd h (by simp)⟩⟩
  frames := ⟨nodup_nil, fun a st => ⟨nofun, fun ⟨k, c, h, _⟩ => absurd h (by simp)⟩⟩
  pool := ⟨nodup_nil, nofun⟩
  cancels := ⟨nofun, nofun, nofun⟩
  inflight := rfl

variable {s : OffloadLoop} {place : ℕ → Place} {k : ℕ} {c c' : Call} {w : WorkItem} {p : Place}

theorem Inv.unique (h : Inv s place) {k' : ℕ} (hk : s.calls[k]? = some c) (hk' : s.calls[k']? = some c')
    (hitem : c'.item = c.item) (hp : place k ≠ .gone) (hp' : place k' ≠ .gone) : k' = k := by
  have h1 := ((h.at_ k c hk).owns hp).call
  have h2 := ((h.at_ k' c' hk').owns hp').call
  rw [hitem] at h2
  exact h2.symm.trans h1

variable {α : Type*} {i : ℕ}

theorem getElem?_set_some {l : List α} {j : ℕ} {x y : α} (h : (l.set i x)[j]? = some y) :
    (j = i ∧ y = x) ∨ (j ≠ i ∧ l[j]? = some y) := by
  by_cases hij : j = i
  · subst hij
    rw [List.getElem?_set_self'] at h
    obtain ⟨_, _, rfl⟩ := map_eq_some_iff.1 h
    exact .inl ⟨rfl, rfl⟩
  · rw [List.getElem?_set_ne (Ne.symm hij)] at h
    exact .inr ⟨hij, h⟩

theorem Inv.heldAt_move (h : Inv s place) (hk : s.calls[k]? = some c) (hp : place k ≠ .gone)
    (hitem : c'.item = c.item) (p' : Place) {q : Place} (hq : q ≠ .gone) (a : ℕ) :
    HeldAt (s.calls.set k c') (Function.update place k p') q a ↔
      (p' = q ∧ a = c.item) ∨ (HeldAt s.calls place q a ∧ ¬(place k = q ∧ a = c.item)) := by
  have hset : (s.calls.set k c')[k]? = some c' := by
    rw [List.getElem?_set_self', hk]
    rfl
  constructor
  · rintro ⟨k', d, hd, rfl, hpl⟩
    obtain ⟨rfl, rfl⟩ | ⟨hne, hd⟩ := getElem?_set_some hd
    · rw [update_self] at hpl
      exact .inl ⟨hpl, hitem⟩
    · rw [update_of_ne hne] at hpl
      refine .inr ⟨⟨k', d, hd, rfl, hpl⟩, fun ⟨_, hi⟩ => hne (h.unique hk hd hi hp ?_)⟩
      rw [hpl]
      exact hq
  · rintro (⟨rfl, rfl⟩ | ⟨⟨k', d, hd, rfl, hpl⟩, hno⟩)
    · exact ⟨k, c', hset, hitem, update_self ..⟩
    · have hne : k' ≠ k := by
        rintro rfl
        obtain rfl := some.inj (hk.symm.trans hd)
        exact hno ⟨hpl, rfl⟩
      exact ⟨k', d, (List.getElem?_set_ne (Ne.symm hne)).trans hd, rfl,
        (update_of_ne hne ..).trans hpl⟩

variable {p' : Place}

theorem Inv.at_move (h : Inv s place) (hk : s.calls[k]? = some c) (hp : place k ≠ .gone) (hitem : c'.item = c.item)
    {w' : WorkItem} (hat : At w' k c' p') : ∀ k' d, (s.calls.set k c')[k']? = some d →
      At (Function.update s.works c.item w' d.item) k' d (Function.update place k p' k') := by
  intro k' d hd
  obtain ⟨rfl, rfl⟩ | ⟨hne, hd⟩ := getElem?_set_some hd
  · rw [update_self, hitem, update_self]
    exact hat
  · rw [update_of_ne hne]
    have hat' := h.at_ k' d hd
    by_cases hi : d.item = c.item
    · -- It had the item before, and has none now.
      have hgone : place k' = .gone := by
        by_contra hp'
        exact hne (h.unique hk hd hi hp hp')
      rw [hgone] at hat' ⊢
      exact hat'.gone _
    · rw [update_of_ne hi]
      exact hat'

variable {calls : List Call} {cancels : List Canceller}

theorem Cancelling.move (h : Cancelling calls place cancels)
    (hk : calls[k]? = some c) (c' : Call) (p' : Place) (hpost : c'.isPost = c.isPost)
    (hstage : c.stage = .accepted → c'.stage = .accepted) (hp : p' = place k ∨ ((∀ i, place k ≠ .canceller i) ∧ ∀ i, p' ≠ .canceller i)) :
    Cancelling (calls.set k c') (Function.update place k p') cancels := by
  have hsame : ∀ k' i, Function.update place k p' k' = .canceller i ↔ place k' = .canceller i := by
    intro k' i
    by_cases hkk : k' = k
    · subst hkk
      rw [update_self]
      obtain rfl | ⟨h1, h2⟩ := hp
      · exact Iff.rfl
      · exact ⟨fun he => absurd he (h2 i), fun he => absurd he (h1 i)⟩
    · rw [update_of_ne hkk]
  refine ⟨fun x hx hst => ?_, fun i x hx hst => (hsame ..).2 (h.won i x hx hst),
    fun k' i hi => h.place k' i ((hsame ..).1 hi)⟩
  obtain ⟨ht, d, hd, hd1, hd2⟩ := h.call x hx hst
  refine ⟨ht, ?_⟩
  by_cases hkk : x.call = k
  · rw [hkk] at hd ⊢
    obtain rfl := some.inj (hk.symm.trans hd)
    refine ⟨c', ?_, hpost.trans hd1, hstage hd2⟩
    rw [List.getElem?_set_self', hk]
    rfl
  · exact ⟨d, (List.getElem?_set_ne (Ne.symm hkk)).trans hd, hd1, hd2⟩

theorem Inv.move (h : Inv s place) (hk : s.calls[k]? = some c) (hp : place k ≠ .gone) (c' : Call) (w' : WorkItem)
    (p' : Place) (s' : OffloadLoop) (hitem : c'.item = c.item) (hat : At w' k c' p') (hsafe : s'.misused = false)
    (hworks : s'.works = Function.update s.works c.item w') (hcalls : s'.calls = s.calls.set k c')
    (hmade : s'.made = s.made)
    (hqueue : s'.queue.Nodup ∧ ∀ a, a ∈ s'.queue ↔
      (p' = .queue ∧ a = c.item) ∨ (a ∈ s.queue ∧ ¬(place k = .queue ∧ a = c.item)))
    (hframes : (s'.frames.map Frame.item).Nodup ∧ ∀ a st, { item := a, stage := st } ∈ s'.frames ↔
      (p' = .frame st ∧ a = c.item) ∨ ({ item := a, stage := st } ∈ s.frames ∧ ¬(place k = .frame st ∧ a = c.item)))
    (hpool : s'.pool.Nodup ∧ ∀ a ∈ s'.pool, a ∈ s.pool ∨ (p' = .gone ∧ a = c.item))
    (hcancels : Cancelling s'.calls (Function.update place k p') s'.cancels)
    (hinflight : s'.inflight = s'.calls.countP Call.outstanding) : Inv s' (Function.update place k p') where
  safe := hsafe
  at_ := by
    rw [hworks, hcalls]
    exact h.at_move hk hp hitem hat
  made k' d hd := by
    rw [hcalls] at hd
    rw [hmade]
    obtain ⟨rfl, rfl⟩ | ⟨-, hd⟩ := getElem?_set_some hd
    · rw [hitem]
      exact h.made _ c hk
    · exact h.made k' d hd
  queue := by
    refine ⟨hqueue.1, fun a => ?_⟩
    rw [hcalls, h.heldAt_move hk hp hitem p' (q := .queue) nofun, hqueue.2, h.queue.2]
  frames := by
    refine ⟨hframes.1, fun a st => ?_⟩
    rw [hcalls, h.heldAt_move hk hp hitem p' (q := .frame st) nofun, hframes.2, h.frames.2]
  pool := by
    refine ⟨hpool.1, fun a ha => ?_⟩
    rw [hmade]
    obtain ha | ⟨rfl, rfl⟩ := hpool.2 a ha
    · refine ⟨(h.pool.2 a ha).1, fun q hq => ?_⟩
      by_contra hqg
      rw [hcalls, h.heldAt_move hk hp hitem p' hqg] at hq
      obtain ⟨-, rfl⟩ | ⟨hq, -⟩ := hq
      · exact hp ((h.pool.2 _ ha).2 _ ⟨k, c, hk, rfl, rfl⟩)
      · exact hqg ((h.pool.2 a ha).2 q hq)
    · refine ⟨h.made k c hk, fun q hq => ?_⟩
      by_contra hqg
      rw [hcalls, h.heldAt_move hk hp hitem .gone hqg] at hq
      obtain ⟨rfl, -⟩ | ⟨⟨k', d, hd, hi, rfl⟩, hno⟩ := hq
      · exact hqg rfl
      · exact hno ⟨by rw [h.unique hk hd hi hp hqg], rfl⟩
  cancels := hcancels
  inflight := hinflight

theorem Inv.stay (h : Inv s place) (hk : s.calls[k]? = some c) (hp : place k ≠ .gone) (c' : Call) (w' : WorkItem)
    (inflight' : ℤ) (hitem : c'.item = c.item) (hpost : c'.isPost = c.isPost)
    (hstage : c.stage = .accepted → c'.stage = .accepted) (hat : At w' k c' (place k))
    (hinflight : inflight' = (s.calls.set k c').countP Call.outstanding) :
    Inv { s with works := Function.update s.works c.item w', calls := s.calls.set k c', inflight := inflight' }
      place := by
  have hupd : Function.update place k (place k) = place := update_eq_self k place
  have hcancels := h.cancels.move hk c' (place k) hpost hstage (.inl rfl)
  have hstay : ∀ (q : Place) (a : ℕ), HeldAt s.calls place q a ↔
      (place k = q ∧ a = c.item) ∨ (HeldAt s.calls place q a ∧ ¬(place k = q ∧ a = c.item)) := by
    intro q a
    by_cases hqa : place k = q ∧ a = c.item
    · exact ⟨fun _ => .inl hqa, fun _ => ⟨k, c, hk, hqa.2.symm, hqa.1⟩⟩
    · exact ⟨fun hq => .inr ⟨hq, hqa⟩, fun hq => hq.elim (fun he => absurd he hqa) And.left⟩
  have hmove := h.move hk hp c' w' (place k) { s with
      works := Function.update s.works c.item w', calls := s.calls.set k c', inflight := inflight' }
    hitem hat h.safe rfl rfl rfl
    ⟨h.queue.1, fun a => ?_⟩ ⟨h.frames.1, fun a st => ?_⟩ ⟨h.pool.1, fun a ha => .inl ha⟩ hcancels hinflight
  · rw [hupd] at hmove
    exact hmove
  · rw [h.queue.2]
    exact hstay _ a
  · rw [h.frames.2]
    exact hstay _ a

theorem countP_set {f : Call → Bool} (hk : calls[k]? = some c) :
    (((calls.set k c').countP f : ℕ) : ℤ) =
      (calls.countP f : ℕ) - (if f c then 1 else 0) + (if f c' then 1 else 0) := by
  obtain ⟨hlt, rfl⟩ := List.getElem?_eq_some_iff.1 hk
  rw [List.countP_set hlt]
  have hle : (if f calls[k] then 1 else 0) ≤ calls.countP f := by
    split
    · exact countP_pos_iff.2 ⟨_, getElem_mem hlt, ‹_›⟩
    · exact Nat.zero_le _
  generalize calls.countP f = n at hle ⊢
  split_ifs at hle ⊢ <;> omega

variable {a : ℕ}

theorem Inv.inflight_set (h : Inv s place) (hk : s.calls[k]? = some c) (hout : c'.outstanding = c.outstanding) :
    s.inflight = (s.calls.set k c').countP Call.outstanding := by
  rw [countP_set hk, hout, h.inflight]
  omega

theorem use_of_at (hat : At w k c p) (hp : p ≠ .gone) : s.use c = s := by
  have hr := hat.recycles
  rw [if_neg hp] at hr
  rw [use, hr]
  simp

/-! ### The lists, when an item moves -/

theorem Inv.at_unique (h : Inv s place) (hk : s.calls[k]? = some c) (hp : place k ≠ .gone) {q : Place}
    (hq : HeldAt s.calls place q a) (ha : a = c.item) (hqg : q ≠ .gone) : place k = q := by
  obtain ⟨k', d, hd, rfl, rfl⟩ := hq
  rw [h.unique hk hd ha hp hqg]

theorem Inv.queue_keep (h : Inv s place) (hp : place k ≠ .queue) (hp' : p' ≠ .queue) :
    s.queue.Nodup ∧ ∀ a, a ∈ s.queue ↔
      (p' = .queue ∧ a = c.item) ∨ (a ∈ s.queue ∧ ¬(place k = .queue ∧ a = c.item)) := by
  refine ⟨h.queue.1, fun a => ?_⟩
  simp [hp, hp']

theorem Inv.queue_push (h : Inv s place) (hk : s.calls[k]? = some c) (hg : place k ≠ .gone) (hp : place k ≠ .queue) :
    (s.queue ++ [c.item]).Nodup ∧ ∀ a, a ∈ s.queue ++ [c.item] ↔
      (Place.queue = .queue ∧ a = c.item) ∨ (a ∈ s.queue ∧ ¬(place k = .queue ∧ a = c.item)) := by
  have hnot : c.item ∉ s.queue := fun hin => hp (h.at_unique hk hg ((h.queue.2 _).1 hin) rfl nofun)
  refine ⟨?_, fun a => ?_⟩
  · rw [nodup_append]
    refine ⟨h.queue.1, pairwise_singleton .., fun a ha b hb => ?_⟩
    rw [mem_singleton.1 hb]
    rintro rfl
    exact hnot ha
  · rw [mem_append, mem_singleton]
    simp [hp, or_comm]

theorem Inv.frames_keep (h : Inv s place) (hp : ∀ st, place k ≠ .frame st) (hp' : ∀ st, p' ≠ .frame st) :
    (s.frames.map Frame.item).Nodup ∧ ∀ a st, { item := a, stage := st } ∈ s.frames ↔
      (p' = .frame st ∧ a = c.item) ∨
        ({ item := a, stage := st } ∈ s.frames ∧ ¬(place k = .frame st ∧ a = c.item)) := by
  refine ⟨h.frames.1, fun a st => ?_⟩
  simp [hp, hp']

variable {st : FrameStage} {fs : List Frame}

theorem Inv.top (h : Inv s place)
    (hf : s.frames = { item := a, stage := st } :: fs) : HeldAt s.calls place (.frame st) a :=
  (h.frames.2 a st).1 (hf ▸ mem_cons_self)

theorem Inv.frames_top (h : Inv s place)
    (hf : s.frames = { item := c.item, stage := st } :: fs) (hp : place k = .frame st) (st' : FrameStage) :
    (({ item := c.item, stage := st' } :: fs).map Frame.item).Nodup ∧
      ∀ a st₁, { item := a, stage := st₁ } ∈ ({ item := c.item, stage := st' } : Frame) :: fs ↔
        (Place.frame st' = .frame st₁ ∧ a = c.item) ∨
          ({ item := a, stage := st₁ } ∈ s.frames ∧ ¬(place k = .frame st₁ ∧ a = c.item)) := by
  have hnodup := h.frames.1
  rw [hf, map_cons, nodup_cons] at hnodup
  have hnot : ∀ st₁, ({ item := c.item, stage := st₁ } : Frame) ∉ fs := fun st₁ hin =>
    hnodup.1 (mem_map.2 ⟨_, hin, rfl⟩)
  refine ⟨nodup_cons.2 hnodup, fun a st₁ => ?_⟩
  rw [hf, hp, mem_cons, mem_cons, Frame.mk.injEq, Frame.mk.injEq, Place.frame.injEq, Place.frame.injEq]
  have := hnot st₁
  grind

theorem Inv.frames_tail (h : Inv s place)
    (hf : s.frames = { item := c.item, stage := st } :: fs) (hp : place k = .frame st) :
    (s.frames.tail.map Frame.item).Nodup ∧ ∀ a st₁, { item := a, stage := st₁ } ∈ s.frames.tail ↔
      (Place.gone = .frame st₁ ∧ a = c.item) ∨
        ({ item := a, stage := st₁ } ∈ s.frames ∧ ¬(place k = .frame st₁ ∧ a = c.item)) := by
  have hnodup := h.frames.1
  rw [hf, map_cons, nodup_cons] at hnodup
  have hnot : ∀ st₁, ({ item := c.item, stage := st₁ } : Frame) ∉ fs := fun st₁ hin =>
    hnodup.1 (mem_map.2 ⟨_, hin, rfl⟩)
  rw [hf]
  refine ⟨hnodup.2, fun a st₁ => ?_⟩
  rw [hp, tail_cons, mem_cons, Frame.mk.injEq, Place.frame.injEq]
  have := hnot st₁
  grind

theorem Inv.pool_push (h : Inv s place) (hk : s.calls[k]? = some c) (hp : place k ≠ .gone) :
    (c.item :: s.pool).Nodup ∧ ∀ a ∈ c.item :: s.pool, a ∈ s.pool ∨ (Place.gone = .gone ∧ a = c.item) := by
  refine ⟨nodup_cons.2 ⟨fun hin => hp ((h.pool.2 _ hin).2 _ ⟨k, c, hk, rfl, rfl⟩), h.pool.1⟩, fun a ha => ?_⟩
  obtain rfl | ha := mem_cons.1 ha
  · exact .inr ⟨rfl, rfl⟩
  · exact .inl ha

theorem Inv.pool_keep (h : Inv s place) :
    s.pool.Nodup ∧ ∀ a ∈ s.pool, a ∈ s.pool ∨ (p' = .gone ∧ a = c.item) :=
  ⟨h.pool.1, fun _ ha => .inl ha⟩

/-! ### The submitter, and the worker -/

theorem set_getElem?_self {l : List α} {x : α} (h : l[i]? = some x) : l.set i x = l := by
  obtain ⟨hlt, rfl⟩ := List.getElem?_eq_some_iff.1 h
  exact set_getElem_self hlt

theorem getElem?_concat_some {l : List α} {x y : α} (h : (l ++ [x])[i]? = some y) :
    (i = l.length ∧ y = x) ∨ (i < l.length ∧ l[i]? = some y) := by
  by_cases hlt : i < l.length
  · rw [List.getElem?_append_left hlt] at h
    exact .inr ⟨hlt, h⟩
  · rw [List.getElem?_append_right (by omega)] at h
    have hi : i - l.length = 0 := by
      by_contra hne
      rw [List.getElem?_eq_none (by simp; omega)] at h
      cases h
    rw [hi] at h
    exact .inl ⟨by omega, (some.inj h).symm⟩

theorem inv_make (h : Inv s place) (hfree : ∀ p, HeldAt s.calls place p a → p = .gone) (kind : CallKind)
    (made' : ℕ → Bool) (hmade : ∀ b, s.made b = true → made' b = true) (hmade' : made' a = true) (pool' : List ℕ)
    (hpool : pool'.Nodup ∧ ∀ b ∈ pool', b ∈ s.pool ∧ b ≠ a) :
    Inv { s with
      made := made', pool := pool', works := Function.update s.works a { call := s.calls.length }
      calls := s.calls ++ [{ kind, item := a }] } (Function.update place s.calls.length .caller) := by
  have hold : ∀ k c, s.calls[k]? = some c → (s.calls ++ [({ kind, item := a } : Call)])[k]? = some c := fun k c hk =>
    (List.getElem?_append_left (List.getElem?_eq_some_iff.1 hk).1).trans hk
  have hheld : ∀ q b, HeldAt (s.calls ++ [({ kind, item := a } : Call)]) (Function.update place s.calls.length .caller) q b ↔
      (q = .caller ∧ b = a) ∨ HeldAt s.calls place q b := by
    intro q b
    constructor
    · rintro ⟨k, c, hk, rfl, rfl⟩
      obtain ⟨rfl, rfl⟩ | ⟨hlt, hk⟩ := getElem?_concat_some hk
      · exact .inl ⟨update_self .., rfl⟩
      · exact .inr ⟨k, c, hk, rfl, (update_of_ne hlt.ne ..).symm⟩
    · rintro (⟨rfl, rfl⟩ | ⟨k, c, hk, rfl, rfl⟩)
      · exact ⟨_, _, List.getElem?_concat_length, rfl, update_self ..⟩
      · exact ⟨k, c, hold k c hk, rfl, update_of_ne (List.getElem?_eq_some_iff.1 hk).1.ne ..⟩
  refine ⟨h.safe, fun k c hk => ?_, fun k c hk => ?_, ⟨h.queue.1, fun b => ?_⟩, ⟨h.frames.1, fun b st => ?_⟩,
    ⟨hpool.1, fun b hb => ?_⟩, ⟨fun x hx hst => ?_, fun i x hx hst => ?_, fun k i hki => ?_⟩, ?_⟩
  · dsimp only
    obtain ⟨rfl, rfl⟩ | ⟨hlt, hk⟩ := getElem?_concat_some hk
    · rw [update_self, update_self]
      exact .caller ⟨rfl, by simp [Call.taskSet], rfl⟩ ⟨rfl, rfl, rfl⟩ rfl rfl rfl rfl rfl
    · rw [update_of_ne hlt.ne]
      have hat := h.at_ k c hk
      by_cases hi : c.item = a
      · rw [hfree _ ⟨k, c, hk, hi, rfl⟩] at hat ⊢
        exact hat.gone _
      · rw [update_of_ne hi]
        exact hat
  · obtain ⟨rfl, rfl⟩ | ⟨-, hk⟩ := getElem?_concat_some hk
    · exact hmade'
    · exact hmade _ (h.made k c hk)
  · rw [h.queue.2, hheld]
    simp
  · rw [h.frames.2, hheld]
    simp
  · obtain ⟨hb, hne⟩ := hpool.2 b hb
    refine ⟨hmade b (h.pool.2 b hb).1, fun p hp => ?_⟩
    exact (h.pool.2 b hb).2 p (((hheld p b).1 hp).resolve_left fun he => hne he.2)
  · obtain ⟨ht, c, hc, hc'⟩ := h.cancels.call x hx hst
    exact ⟨ht, c, hold _ c hc, hc'⟩
  · obtain ⟨-, c, hc, -⟩ := h.cancels.call x (mem_of_getElem? hx) (by rw [hst]; simp)
    rw [update_of_ne (List.getElem?_eq_some_iff.1 hc).1.ne]
    exact h.cancels.won i x hx hst
  · by_cases hkk : k = s.calls.length
    · rw [hkk, update_self] at hki
      cases hki
    · rw [update_of_ne hkk] at hki
      exact h.cancels.place k i hki
  · rw [countP_append, h.inflight]
    simp [Call.outstanding]

variable {s' : OffloadLoop}

theorem inv_alloc (h : Inv s place) {kind : CallKind} {mem : Option ℕ}
    (hstep : s.alloc kind mem = some s') : ∃ place', Inv s' place' := by
  rw [alloc, workAlloc] at hstep
  split at hstep
  · cases hstep
  next a s₁ halloc =>
  split at halloc
  · next _ rest hpool =>
    cases halloc
    cases hstep
    have hb : a ∈ s.pool := by rw [hpool]; exact mem_cons_self
    have hnodup := h.pool.1
    rw [hpool, nodup_cons] at hnodup
    refine ⟨_, inv_make h (h.pool.2 a hb).2 kind s.made (fun _ => id) (h.pool.2 a hb).1 rest
      ⟨hnodup.2, fun x hx => ⟨by rw [hpool]; exact mem_cons_of_mem _ hx, ?_⟩⟩⟩
    rintro rfl
    exact hnodup.1 hx
  · next hpool =>
    split at halloc
    · next _ hmem =>
      cases halloc
      cases hstep
      have hb : s.made a = false := by simpa using (filter_eq_some_iff.1 hmem).2
      have hfree : ∀ p, HeldAt s.calls place p a → p = .gone := by
        rintro p ⟨k, c, hk, hi, -⟩
        have hmade := h.made k c hk
        rw [hi, hb] at hmade
        cases hmade
      have hmade : ∀ x, s.made x = true → Function.update s.made a true x = true := fun x hx => by
        by_cases hxa : x = a
        · rw [hxa, update_self]
        · rwa [update_of_ne hxa]
      refine ⟨_, inv_make h hfree kind (Function.update s.made a true) hmade (update_self ..) s.pool
        ⟨h.pool.1, fun x hx => ?_⟩⟩
      rw [hpool] at hx
      cases hx
    · cases halloc

theorem inv_submitTask (h : Inv s place) (hk : s.calls[k]? = some c) (hstage : c.stage = .allocated)
    (hpost : c.isPost = false) (ok : Bool) : ∃ place', Inv (s.submitTask k c ok) place' := by
  have hat := h.at_ k c hk
  have hp := hat.of_allocated hstage
  have hg : place k ≠ .gone := by rw [hp]; simp
  have hq : place k ≠ .queue := by rw [hp]; simp
  have hf : ∀ st, place k ≠ .frame st := by rw [hp]; simp
  have hc : ∀ i, place k ≠ .canceller i := by rw [hp]; simp
  have hacc : c.stage ≠ .accepted := by rw [hstage]; simp
  have hself : s.works = Function.update s.works c.item (s.works c.item) := (update_eq_self ..).symm
  rw [hp] at hat
  obtain ⟨hok, hfail⟩ := hat.submitTask hpost
  have hout : c.outstanding = false := by simp [Call.outstanding, hstage]
  cases ok with
  | true =>
    exact ⟨_, h.move hk hg { c with stage := .submitted } _ .worker _ rfl hok h.safe hself rfl rfl
      (h.queue_keep hq (by simp)) (h.frames_keep hf fun _ => by simp) h.pool_keep
      (h.cancels.move hk _ _ rfl (absurd · hacc) (.inr ⟨hc, fun _ => by simp⟩))
      (h.inflight_set hk (by rw [hout]; simp [Call.outstanding]))⟩
  | false =>
    rw [submitTask, use_of_at hat (by simp)]
    exact ⟨_, h.move hk hg { c with stage := .failed, recycles := c.recycles + 1 } _ .gone _ rfl hfail h.safe hself rfl rfl
      (h.queue_keep hq (by simp)) (h.frames_keep hf fun _ => by simp) (h.pool_push hk hg)
      (h.cancels.move hk _ _ rfl (absurd · hacc) (.inr ⟨hc, fun _ => by simp⟩))
      (h.inflight_set hk (by rw [hout]; simp [Call.outstanding]))⟩

theorem inv_setTask (h : Inv s place) (hk : s.calls[k]? = some c) (hstage : c.stage = .submitted)
    (hpost : c.isPost = false) : Inv (s.setTask k c) place := by
  obtain ⟨hat, hp⟩ := (h.at_ k c hk).setTask hstage hpost
  rw [setTask, use_of_at (h.at_ k c hk) hp]
  refine h.stay hk hp _ _ s.inflight rfl rfl (fun ha => ?_) hat (h.inflight_set hk ?_)
  · rw [ha] at hstage
    cases hstage
  · rw [Call.outstanding, Call.outstanding, hstage]
    rfl

theorem inv_accept (h : Inv s place) (hk : s.calls[k]? = some c) (hstage : c.stage = .taskSet)
    (hpost : c.isPost = false) : Inv (s.accept k c) place := by
  obtain ⟨hat, hp, hun⟩ := (h.at_ k c hk).accept hstage hpost
  have hstay := h.stay hk hp { c with stage := .accepted } _ (s.inflight + 1) rfl rfl (fun _ => rfl) hat ?_
  · rw [update_eq_self] at hstay
    exact hstay
  · have hout : c.outstanding = false := by simp [Call.outstanding, hstage]
    have hout' : Call.outstanding { c with stage := .accepted } = true := by
      simp [Call.outstanding, hun]
      exact hpost
    rw [countP_set hk, hout, hout', h.inflight]
    simp

theorem inv_postPush (h : Inv s place) (hk : s.calls[k]? = some c) (hstage : c.stage = .allocated)
    (hpost : c.isPost = true) : ∃ place', Inv (s.postPush k c) place' := by
  have hat := h.at_ k c hk
  have hp := hat.of_allocated hstage
  have hg : place k ≠ .gone := by rw [hp]; nofun
  have hq : place k ≠ .queue := by rw [hp]; nofun
  have hf : ∀ st, place k ≠ .frame st := by rw [hp]; nofun
  have hc : ∀ i, place k ≠ .canceller i := by rw [hp]; nofun
  have hself : s.works = Function.update s.works c.item (s.works c.item) := (update_eq_self ..).symm
  rw [hp] at hat
  rw [postPush, use_of_at hat nofun]
  refine ⟨_, h.move hk hg { c with stage := .accepted } _ .queue _ rfl (hat.postPush hpost) h.safe hself rfl rfl
    (h.queue_push hk hg hq) (h.frames_keep hf fun _ => nofun) h.pool_keep
    (h.cancels.move hk _ _ rfl (fun _ => rfl) (.inr ⟨hc, fun _ => nofun⟩)) (h.inflight_set hk ?_)⟩
  rw [Call.outstanding, Call.outstanding, hpost, show Call.isPost { c with stage := .accepted } = true from hpost]
  rfl

theorem inv_start (h : Inv s place) (hk : s.calls[k]? = some c) (htask : c.hasTask = true)
    (hworker : c.worker = .queued) : Inv (s.start k c) place := by
  obtain ⟨hat, hp⟩ := (h.at_ k c hk).start htask hworker
  have hstay := h.stay hk hp { c with worker := if c.cancelled then .finished else .running } _ s.inflight rfl rfl id hat
    (h.inflight_set hk rfl)
  rw [update_eq_self] at hstay
  exact hstay

theorem tell_eq (ha : (s.works a).call = k) (hk : s.calls[k]? = some c) (f : Call → Call) :
    s.tell a f = s.setCall k (f c) := by
  rw [tell, setCall, ha, modify_eq_set_getElem?, hk]
  rfl

theorem inv_work (h : Inv s place) (hk : s.calls[k]? = some c) (htask : c.hasTask = true)
    (hworker : c.worker = .running) (r : ℕ) : Inv (s.work k c r) place := by
  have hat := h.at_ k c hk
  have hp := hat.of_busy htask (.inl hworker)
  have hg : place k ≠ .gone := by rw [hp]; nofun
  rw [hp] at hat
  have hstay := h.stay hk hg { c with worker := .worked, workRuns := c.workRuns ++ [r] }
    { s.works c.item with result := some r } s.inflight rfl rfl id (hp ▸ hat.work hworker r) (h.inflight_set hk rfl)
  have hset : (s.calls.set k { c with worker := .worked })[k]? = some { c with worker := .worked } := by
    rw [List.getElem?_set_self', hk]
    rfl
  have hcall : (Function.update s.works c.item { s.works c.item with result := some r } c.item).call = k := by
    rw [update_self]
    exact (hat.owns nofun).call
  rw [work, use_of_at hat nofun, tell_eq hcall hset, setCall, setCall]
  dsimp only
  rw [set_set]
  exact hstay

theorem inv_push (h : Inv s place) (hk : s.calls[k]? = some c) (htask : c.hasTask = true)
    (hworker : c.worker = .worked) : ∃ place', Inv (s.push k c) place' := by
  have hat := h.at_ k c hk
  have hp := hat.of_busy htask (.inr hworker)
  have hg : place k ≠ .gone := by rw [hp]; nofun
  have hq : place k ≠ .queue := by rw [hp]; nofun
  have hf : ∀ st, place k ≠ .frame st := by rw [hp]; nofun
  have hc : ∀ i, place k ≠ .canceller i := by rw [hp]; nofun
  have hself : s.works = Function.update s.works c.item (s.works c.item) := (update_eq_self ..).symm
  rw [hp] at hat
  rw [push, use_of_at hat nofun]
  exact ⟨_, h.move hk hg { c with worker := .pushed } _ .queue _ rfl (hat.push hworker) h.safe hself rfl rfl
    (h.queue_push hk hg hq) (h.frames_keep hf fun _ => nofun) h.pool_keep
    (h.cancels.move hk _ _ rfl id (.inr ⟨hc, fun _ => nofun⟩)) (h.inflight_set hk rfl)⟩

theorem inv_finish (h : Inv s place) (hk : s.calls[k]? = some c) (htask : c.hasTask = true)
    (hworker : c.worker = .pushed) : Inv (s.finish k c) place := by
  obtain ⟨hat, hp⟩ := (h.at_ k c hk).finish htask hworker
  have hstay := h.stay hk hp { c with worker := .finished } _ s.inflight rfl rfl id hat (h.inflight_set hk rfl)
  rw [update_eq_self] at hstay
  rw [finish, use_of_at (h.at_ k c hk) hp]
  exact hstay

/-! ### The canceller -/

theorem inv_cancelLoad (h : Inv s place) (hk : s.calls[k]? = some c) (hpost : c.isPost = false)
    (hstage : c.stage = .accepted) (hr : c.recycles = 0) : Inv (s.cancelLoad k c) place := by
  have hat := h.at_ k c hk
  have ho := hat.owns (hat.ne_gone hr)
  have htask : (s.works c.item).task = some k := by
    rw [ho.task, if_pos (Call.taskSet_iff.2 ⟨hpost, .inr hstage⟩)]
  rw [cancelLoad, use_of_at hat (hat.ne_gone hr), htask]
  refine ⟨h.safe, h.at_, h.made, h.queue, h.frames, h.pool, ⟨fun x hx hst => ?_, fun i x hx hst => ?_, fun k' i hi => ?_⟩,
    h.inflight⟩
  · obtain hx | hx := mem_append.1 hx
    · exact h.cancels.call x hx hst
    · obtain rfl := mem_singleton.1 hx
      exact ⟨rfl, c, hk, hpost, hstage⟩
  · obtain ⟨-, rfl⟩ | ⟨-, hx⟩ := getElem?_concat_some hx
    · cases hst
    · exact h.cancels.won i x hx hst
  · obtain ⟨x, hx, hx'⟩ := h.cancels.place k' i hi
    exact ⟨x, (List.getElem?_append_left (List.getElem?_eq_some_iff.1 hx).1).trans hx, hx'⟩

theorem Cancelling.set (h : Cancelling calls place cancels)
    (x : Canceller) (hno : ∀ k, place k ≠ .canceller i) :
    Cancelling calls place (cancels.set i { x with stage := .returned }) := by
  refine ⟨fun y hy hst => ?_, fun j y hy hst => ?_, fun k j hj => ?_⟩
  · obtain hy | rfl := mem_or_eq_of_mem_set hy
    · exact h.call y hy hst
    · exact absurd rfl hst
  · obtain ⟨-, rfl⟩ | ⟨-, hy⟩ := getElem?_set_some hy
    · cases hst
    · exact h.won j y hy hst
  · obtain ⟨y, hy, hy'⟩ := h.place k j hj
    refine ⟨y, (List.getElem?_set_ne ?_).trans hy, hy'⟩
    rintro rfl
    exact hno k hj

theorem Cancelling.turn (h : Cancelling calls place cancels)
    {x : Canceller} (hx : cancels[i]? = some x) (hst : x.stage ≠ .returned) (hk : calls[x.call]? = some c) (c' : Call)
    (p' : Place) (stage' : CancelStage) (hpost : c'.isPost = c.isPost) (hstage : c.stage = .accepted → c'.stage = .accepted)
    (hp : ∀ j, place x.call = .canceller j → j = i) (hno : ∀ k, place k = .canceller i → k = x.call)
    (hp' : stage' = .won ∧ p' = .canceller i ∨ stage' = .returned ∧ ∀ j, p' ≠ .canceller j) :
    Cancelling (calls.set x.call c') (Function.update place x.call p') (cancels.set i { x with stage := stage' }) := by
  have hset : (cancels.set i { x with stage := stage' })[i]? = some { x with stage := stage' } := by
    rw [List.getElem?_set_self', hx]
    rfl
  refine ⟨fun y hy hyst => ?_, fun j y hy hyst => ?_, fun k j hj => ?_⟩
  · have hcall : y.task = some y.call ∧ ∃ c, calls[y.call]? = some c ∧ c.isPost = false ∧ c.stage = .accepted := by
      obtain hy | rfl := mem_or_eq_of_mem_set hy
      · exact h.call y hy hyst
      · exact h.call x (mem_of_getElem? hx) hst
    obtain ⟨ht, d, hd, hd1, hd2⟩ := hcall
    refine ⟨ht, ?_⟩
    by_cases hyx : y.call = x.call
    · rw [hyx] at hd ⊢
      obtain rfl := some.inj (hk.symm.trans hd)
      refine ⟨c', ?_, hpost.trans hd1, hstage hd2⟩
      rw [List.getElem?_set_self', hk]
      rfl
    · exact ⟨d, (List.getElem?_set_ne (Ne.symm hyx)).trans hd, hd1, hd2⟩
  · obtain ⟨rfl, rfl⟩ | ⟨hne, hy⟩ := getElem?_set_some hy
    · obtain ⟨-, rfl⟩ | ⟨hret, -⟩ := hp'
      · exact update_self ..
      · rw [hret] at hyst
        cases hyst
    · have hplace := h.won j y hy hyst
      refine (update_of_ne (fun hyx => hne ?_) ..).trans hplace
      rw [hyx] at hplace
      exact hp j hplace
  · by_cases hkx : k = x.call
    · rw [hkx, update_self] at hj
      obtain ⟨hwon, rfl⟩ | ⟨-, hne⟩ := hp'
      · cases hj
        exact ⟨_, hset, hkx.symm, hwon⟩
      · exact absurd hj (hne j)
    · rw [update_of_ne hkx] at hj
      obtain ⟨y, hy, hy'⟩ := h.place k j hj
      refine ⟨y, (List.getElem?_set_ne ?_).trans hy, hy'⟩
      rintro rfl
      exact hkx (hno k hj)

theorem inv_cancelTask (h : Inv s place) {x : Canceller} (hx : s.cancels[i]? = some x)
    (hst : x.stage = .loaded) : ∃ place', Inv (s.cancelTask i x) place' := by
  have hret : x.stage ≠ .returned := by rw [hst]; nofun
  obtain ⟨htask, c, hk, hpost, hstage⟩ := h.cancels.call x (mem_of_getElem? hx) hret
  have hno : ∀ k, place k ≠ .canceller i := fun k hki => by
    obtain ⟨y, hy, -, hy'⟩ := h.cancels.place k i hki
    obtain rfl := some.inj (hx.symm.trans hy)
    rw [hst] at hy'
    cases hy'
  have hbind : (x.task.bind fun t => (s.calls[t]?).map fun c => (t, c)) = some (x.call, c) := by
    rw [htask, bind_some, hk]
    rfl
  rw [cancelTask, hbind]
  dsimp only
  split
  · next hwin =>
    obtain ⟨hp, hat⟩ := (h.at_ _ c hk).cancelTask hpost hstage hwin.1 hwin.2 i
    have hself : s.works = Function.update s.works c.item (s.works c.item) := (update_eq_self ..).symm
    have hq : place x.call ≠ .queue := by rw [hp]; nofun
    have hf : ∀ st, place x.call ≠ .frame st := by rw [hp]; nofun
    exact ⟨_, h.move hk (by rw [hp]; nofun) { c with cancelled := true } _ (.canceller i) _ rfl hat h.safe hself rfl rfl
      (h.queue_keep hq nofun) (h.frames_keep hf fun _ => nofun) h.pool_keep
      (h.cancels.turn hx hret hk _ _ _ rfl id (fun j hj => by rw [hp] at hj; cases hj) (fun k hki => absurd hki (hno k))
        (.inl ⟨rfl, rfl⟩)) (h.inflight_set hk rfl)⟩
  · exact ⟨place, h.safe, h.at_, h.made, h.queue, h.frames, h.pool, h.cancels.set x hno, h.inflight⟩

theorem inv_cancelPush (h : Inv s place) {x : Canceller} (hx : s.cancels[i]? = some x) (hst : x.stage = .won)
    (hk : s.calls[x.call]? = some c) : ∃ place', Inv (s.cancelPush i x c) place' := by
  have hret : x.stage ≠ .returned := by rw [hst]; nofun
  have hp := h.cancels.won i x hx hst
  have hat := h.at_ _ c hk
  have hg : place x.call ≠ .gone := by rw [hp]; nofun
  have hf : ∀ st, place x.call ≠ .frame st := by rw [hp]; nofun
  have hno : ∀ k, place k = .canceller i → k = x.call := fun k hki => by
    obtain ⟨y, hy, hy', -⟩ := h.cancels.place k i hki
    obtain rfl := some.inj (hx.symm.trans hy)
    exact hy'.symm
  rw [hp] at hat
  rw [cancelPush, use_of_at hat nofun]
  exact ⟨_, h.move hk hg { c with cancelOk := true } { s.works c.item with result := none } .queue _ rfl hat.cancelPush
    h.safe rfl rfl rfl (h.queue_push hk hg (by rw [hp]; nofun)) (h.frames_keep hf fun _ => nofun) h.pool_keep
    (h.cancels.turn hx hret hk _ _ _ rfl id (fun j hj => by rw [hp] at hj; cases hj; rfl) hno
      (.inr ⟨rfl, fun _ => nofun⟩)) (h.inflight_set hk rfl)⟩

/-! ### The loop -/

theorem Inv.top_eq (h : Inv s place)
    (hf : s.frames = { item := a, stage := st } :: fs) :
    ∃ (k : ℕ) (c : Call), s.calls[k]? = some c ∧ c.item = a ∧ place k = .frame st ∧ At (s.works a) k c (.frame st) ∧
      (s.works a).call = k ∧ s.useItem a = s := by
  obtain ⟨k, c, hk, rfl, hp⟩ := h.top hf
  have hat := h.at_ k c hk
  rw [hp] at hat
  have hcall := (hat.owns nofun).call
  refine ⟨k, c, hk, rfl, hp, hat, hcall, ?_⟩
  rw [useItem, hcall, hk]
  exact use_of_at hat nofun

theorem inv_pop (h : Inv s place) (hstep : s.pop = some s') : ∃ place', Inv s' place' := by
  rw [pop] at hstep
  split at hstep
  · cases hstep
  next a rest hqueue =>
  split at hstep
  · cases hstep
    obtain ⟨k, c, hk, rfl, hp⟩ := (h.queue.2 a).1 (hqueue ▸ mem_cons_self)
    have hat := h.at_ k c hk
    have hg : place k ≠ .gone := by rw [hp]; nofun
    have hf : ∀ st, place k ≠ .frame st := by rw [hp]; nofun
    have hc : ∀ i, place k ≠ .canceller i := by rw [hp]; nofun
    have hself : s.works = Function.update s.works c.item (s.works c.item) := (update_eq_self ..).symm
    have hcalls : s.calls = s.calls.set k c := (set_getElem?_self hk).symm
    have hpopped : At (s.works c.item) k c (.frame .popped) := by
      rw [hp] at hat
      cases hat with
      | queue ho hr => exact .popped ho hr
    have hnodup := h.queue.1
    rw [hqueue, nodup_cons] at hnodup
    have hnew : ∀ st, ({ item := c.item, stage := st } : Frame) ∉ s.frames := fun st hin =>
      hf st (h.at_unique hk hg ((h.frames.2 _ _).1 hin) rfl nofun)
    have hcancels := h.cancels.move hk c (.frame .popped) rfl id (.inr ⟨hc, fun _ => nofun⟩)
    rw [← hcalls] at hcancels
    refine ⟨_, h.move hk hg c _ (.frame .popped) _ rfl hpopped h.safe hself hcalls rfl ⟨hnodup.2, fun b => ?_⟩
      ⟨nodup_cons.2 ⟨?_, h.frames.1⟩, fun b st => ?_⟩ h.pool_keep hcancels h.inflight⟩
    · rw [hqueue, hp, mem_cons]
      have := hnodup.1
      grind
    · rw [List.mem_map]
      rintro ⟨⟨b, st⟩, hin, hi⟩
      obtain rfl : b = c.item := hi
      exact hnew st hin
    · rw [mem_cons, Frame.mk.injEq, Place.frame.injEq]
      have := hnew st
      grind
  · cases hstep

theorem Inv.dispatch (h : Inv s place) (hk : s.calls[k]? = some c)
    (hf : s.frames = { item := c.item, stage := st } :: fs) (hp : place k = .frame st) (c' : Call) (st' : FrameStage)
    (inflight' : ℤ) (hitem : c'.item = c.item) (hpost : c'.isPost = c.isPost)
    (hstage : c.stage = .accepted → c'.stage = .accepted) (hat : At (s.works c.item) k c' (.frame st'))
    (hinflight : inflight' = (s.calls.set k c').countP Call.outstanding) :
    Inv { s with
      calls := s.calls.set k c', frames := { item := c.item, stage := st' } :: fs, inflight := inflight' }
      (Function.update place k (.frame st')) := by
  have hself : s.works = Function.update s.works c.item (s.works c.item) := (update_eq_self ..).symm
  have hc : ∀ i, place k ≠ .canceller i := by rw [hp]; nofun
  exact h.move hk (by rw [hp]; nofun) c' _ (.frame st') _ hitem hat h.safe hself rfl rfl
    (h.queue_keep (by rw [hp]; nofun) nofun) (h.frames_top hf hp st') h.pool_keep
    (h.cancels.move hk _ _ hpost hstage (.inr ⟨hc, fun _ => nofun⟩)) hinflight

theorem topFrame_eq (hf : s.frames = { item := a, stage := st } :: fs)
    (st' : FrameStage) : s.topFrame st' = { s with frames := { item := a, stage := st' } :: fs } := by
  rw [topFrame, hf]

theorem tell_topFrame (hf : s.frames = { item := a, stage := st } :: fs)
    (st' : FrameStage) (ha : (s.works a).call = k) (hk : s.calls[k]? = some c) (f : Call → Call) :
    (s.topFrame st').tell a f =
      { s with calls := s.calls.set k (f c), frames := { item := a, stage := st' } :: fs } := by
  rw [topFrame_eq hf]
  exact tell_eq (s := { s with frames := { item := a, stage := st' } :: fs }) ha hk f

theorem inv_check (h : Inv s place) (hf : s.frames = { item := a, stage := .popped } :: fs)
    (hclean : s.Clean .check) : ∃ place', Inv (s.check a) place' := by
  obtain ⟨k, c, hk, rfl, hp, hat, hcall, huse⟩ := h.top_eq hf
  have hcheck := hat.check (hclean _ (by rw [hf]; rfl) c (by rw [hcall]; exact hk))
  rw [check, huse]
  revert hcheck
  cases (s.works c.item).task with
  | some t =>
    rintro ⟨rfl, hat'⟩
    have hmove := h.dispatch hk hf hp c (.waiting t) s.inflight rfl rfl id hat' (h.inflight_set hk rfl)
    rw [set_getElem?_self hk] at hmove
    dsimp only
    rw [topFrame_eq hf]
    exact ⟨_, hmove⟩
  | none =>
    rintro ⟨-, hat'⟩
    dsimp only
    rw [tell_topFrame hf _ hcall hk]
    exact ⟨_, h.dispatch hk hf hp _ (.called false) s.inflight rfl rfl id hat' (h.inflight_set hk rfl)⟩

theorem callDone_eq (c : Call) (r : Option ℕ) :
    (callDone c r).item = c.item ∧ (callDone c r).isPost = c.isPost ∧ (callDone c r).stage = c.stage ∧
      (callDone c r).outstanding = c.outstanding := by
  rw [callDone]
  split <;> exact ⟨rfl, rfl, rfl, rfl⟩

theorem inv_wait (h : Inv s place) {t : ℕ}
    (hf : s.frames = { item := a, stage := .waiting t } :: fs) (ht : s.calls[t]? = some c)
    (hworker : c.worker = .finished) : ∃ place', Inv (s.wait a c.cancelled) place' := by
  obtain ⟨k, d, hk, rfl, hp, hat, hcall, huse⟩ := h.top_eq hf
  have hkt : k = t := by
    cases hat
    rfl
  subst hkt
  obtain rfl := some.inj (hk.symm.trans ht)
  have hwait := hat.wait hworker
  rw [wait, huse]
  revert hwait
  split
  · intro hat'
    have hmove := h.dispatch hk hf hp d (.called true) s.inflight rfl rfl id hat' (h.inflight_set hk rfl)
    rw [set_getElem?_self hk] at hmove
    rw [topFrame_eq hf]
    exact ⟨_, hmove⟩
  · intro hat'
    obtain ⟨h1, h2, h3, h4⟩ := callDone_eq d (s.works d.item).result
    rw [tell_topFrame hf _ hcall hk]
    exact ⟨_, h.dispatch hk hf hp _ (.called true) s.inflight h1 h2 (fun hacc => h3.trans hacc) hat'
      (h.inflight_set hk h4)⟩

theorem inv_uncount (h : Inv s place)
    (hf : s.frames = { item := a, stage := .called true } :: fs) (hclean : s.Clean .uncount) :
    ∃ place', Inv (s.uncount a) place' := by
  obtain ⟨k, c, hk, rfl, hp, hat, hcall, -⟩ := h.top_eq hf
  have hstage := hclean _ (by rw [hf]; rfl) c (by rw [hcall]; exact hk)
  obtain ⟨hout, hat'⟩ := hat.uncount hstage
  have hout' : Call.outstanding { c with uncounted := true } = false := by simp [Call.outstanding]
  rw [uncount, tell_topFrame hf _ hcall hk]
  refine ⟨_, h.dispatch hk hf hp _ .counted (s.inflight - 1) rfl rfl id hat' ?_⟩
  rw [countP_set hk, hout, hout', h.inflight]
  simp

theorem inv_recycle (h : Inv s place)
    (hf : s.frames = { item := a, stage := st } :: fs) (hst : st = .called false ∨ st = .counted) :
    ∃ place', Inv (s.recycle a) place' := by
  obtain ⟨k, c, hk, rfl, hp, hat, hcall, huse⟩ := h.top_eq hf
  have hself : s.works = Function.update s.works c.item (s.works c.item) := (update_eq_self ..).symm
  have hc : ∀ i, place k ≠ .canceller i := by rw [hp]; nofun
  have hg : place k ≠ .gone := by rw [hp]; nofun
  rw [recycle, huse, tell_eq (s := { s with frames := s.frames.tail }) hcall hk]
  exact ⟨_, h.move hk hg { c with recycles := c.recycles + 1 } _ .gone _ rfl (hat.recycle hst) h.safe hself rfl rfl
    (h.queue_keep (by rw [hp]; nofun) nofun) (h.frames_tail hf hp) (h.pool_push hk hg)
    (h.cancels.move hk _ _ rfl id (.inr ⟨hc, fun _ => nofun⟩)) (h.inflight_set hk rfl)⟩

/-! ### Every run -/

theorem onCall_eq {k : ℕ} {q : Call → Bool} {f : Call → OffloadLoop} (h : s.onCall k q f = some s') :
    ∃ c, s.calls[k]? = some c ∧ q c = true ∧ s' = f c := by
  rw [onCall] at h
  split at h
  · cases h
  · next c hc =>
    split at h
    · next hq => exact ⟨c, hc, hq, (some.inj h).symm⟩
    · cases h

theorem onFrame_eq {q : Frame → Bool} {f : Frame → OffloadLoop} (h : s.onFrame q f = some s') :
    ∃ a st fs, s.frames = { item := a, stage := st } :: fs ∧ q { item := a, stage := st } = true ∧
      s' = f { item := a, stage := st } := by
  rw [onFrame] at h
  split at h
  · cases h
  · next x fs hf =>
    split at h
    · next hq => exact ⟨x.item, x.stage, fs, hf, hq, (some.inj h).symm⟩
    · cases h

theorem onCancel_eq {q : Canceller → Bool} {f : Canceller → OffloadLoop}
    (h : s.onCancel i q f = some s') : ∃ x, s.cancels[i]? = some x ∧ q x = true ∧ s' = f x := by
  rw [onCancel] at h
  split at h
  · cases h
  · next x hx =>
    split at h
    · next hq => exact ⟨x, hx, hq, (some.inj h).symm⟩
    · cases h

theorem inv_step (h : Inv s place) {m : OffloadStep} (hclean : s.Clean m)
    (hstep : s.step m = some s') : ∃ place', Inv s' place' := by
  cases m with
  | alloc kind mem => exact inv_alloc h hstep
  | submitTask k ok =>
    obtain ⟨c, hk, hq, rfl⟩ := onCall_eq hstep
    simp only [Bool.and_eq_true, Bool.not_eq_true', beq_iff_eq] at hq
    exact inv_submitTask h hk hq.2 hq.1 ok
  | setTask k =>
    obtain ⟨c, hk, hq, rfl⟩ := onCall_eq hstep
    simp only [Bool.and_eq_true, Bool.not_eq_true', beq_iff_eq] at hq
    exact ⟨place, inv_setTask h hk hq.2 hq.1⟩
  | accept k =>
    obtain ⟨c, hk, hq, rfl⟩ := onCall_eq hstep
    simp only [Bool.and_eq_true, Bool.not_eq_true', beq_iff_eq] at hq
    exact ⟨place, inv_accept h hk hq.2 hq.1⟩
  | postPush k =>
    obtain ⟨c, hk, hq, rfl⟩ := onCall_eq hstep
    simp only [Bool.and_eq_true, beq_iff_eq] at hq
    exact inv_postPush h hk hq.2 hq.1
  | start k =>
    obtain ⟨c, hk, hq, rfl⟩ := onCall_eq hstep
    simp only [Bool.and_eq_true, beq_iff_eq] at hq
    exact ⟨place, inv_start h hk hq.1 hq.2⟩
  | work k r =>
    obtain ⟨c, hk, hq, rfl⟩ := onCall_eq hstep
    simp only [Bool.and_eq_true, beq_iff_eq] at hq
    exact ⟨place, inv_work h hk hq.1 hq.2 r⟩
  | push k =>
    obtain ⟨c, hk, hq, rfl⟩ := onCall_eq hstep
    simp only [Bool.and_eq_true, beq_iff_eq] at hq
    exact inv_push h hk hq.1 hq.2
  | finish k =>
    obtain ⟨c, hk, hq, rfl⟩ := onCall_eq hstep
    simp only [Bool.and_eq_true, beq_iff_eq] at hq
    exact ⟨place, inv_finish h hk hq.1 hq.2⟩
  | cancelLoad k =>
    obtain ⟨c, hk, hq, rfl⟩ := onCall_eq hstep
    simp only [Bool.and_eq_true, Bool.not_eq_true', beq_iff_eq] at hq
    exact ⟨place, inv_cancelLoad h hk hq.1 hq.2 (hclean c hk)⟩
  | cancelTask i =>
    obtain ⟨x, hx, hq, rfl⟩ := onCancel_eq hstep
    exact inv_cancelTask h hx (beq_iff_eq.1 hq)
  | cancelPush i =>
    obtain ⟨x, hx, hq, rfl⟩ := onCancel_eq hstep
    split
    · exact ⟨place, h⟩
    · next c hc => exact inv_cancelPush h hx (beq_iff_eq.1 hq) hc
  | pop => exact inv_pop h hstep
  | check =>
    obtain ⟨a, st, fs, hf, hq, rfl⟩ := onFrame_eq hstep
    obtain rfl : st = .popped := beq_iff_eq.1 hq
    exact inv_check h hf hclean
  | wait =>
    rw [step.eq_def] at hstep
    dsimp only at hstep
    split at hstep
    · next a t fs hf =>
      obtain ⟨c, hk, hq, rfl⟩ := onCall_eq hstep
      exact inv_wait h hf hk (beq_iff_eq.1 hq)
    · cases hstep
  | uncount =>
    obtain ⟨a, st, fs, hf, hq, rfl⟩ := onFrame_eq hstep
    obtain rfl : st = .called true := beq_iff_eq.1 hq
    exact inv_uncount h hf hclean
  | recycle =>
    obtain ⟨a, st, fs, hf, hq, rfl⟩ := onFrame_eq hstep
    simp only [Bool.or_eq_true, beq_iff_eq] at hq
    exact inv_recycle h hf hq

theorem Inv.kept (h : Inv s place) (hk : s.calls[k]? = some c) (hr : c.recycles = 0) : s.Underway k c := by
  have hat := h.at_ k c hk
  cases hp : place k with
  | caller =>
    rw [hp] at hat
    cases hat with
    | caller _ _ hst => exact .inl hst
  | worker =>
    rw [hp] at hat
    cases hat with
    | worker _ _ ht h1 _ h3 => exact .inr (.inl ⟨ht, h1, by tauto⟩)
  | canceller i =>
    obtain ⟨x, hx, hxk, hst⟩ := h.cancels.place k i hp
    exact .inr (.inr (.inl ⟨x, mem_of_getElem? hx, hxk, hst⟩))
  | queue => exact .inr (.inr (.inr (.inl ((h.queue.2 _).2 ⟨k, c, hk, rfl, hp⟩))))
  | frame st =>
    exact .inr (.inr (.inr (.inr ⟨_, (h.frames.2 _ st).2 ⟨k, c, hk, rfl, hp⟩, rfl⟩)))
  | gone => exact absurd hp (hat.ne_gone hr)

theorem countP_eq_iff {f g : α → Bool} : ∀ {l : List α}, (∀ x ∈ l, f x = true → g x = true) →
    (l.countP g = l.countP f ↔ ∀ x ∈ l, g x = true → f x = true)
  | [], _ => by simp
  | x :: l, h => by
    have hl : ∀ y ∈ l, f y = true → g y = true := fun y hy => h y (mem_cons_of_mem _ hy)
    have hle : l.countP f ≤ l.countP g := countP_mono_left hl
    have hx := h x mem_cons_self
    rw [countP_cons, countP_cons, forall_mem_cons, ← countP_eq_iff hl]
    cases hf : f x <;> cases hg : g x <;> simp [hf, hg] at hx ⊢
    omega

theorem Inv.exact (h : Inv s place) :
    s.Once ∧ s.inflight = s.calls.countP Call.outstanding ∧ (s.Exact ↔ s.Dispatched) := by
  have honce : s.Once := by
    refine ⟨h.safe, fun c hc => ?_, fun k c hk hr => h.kept hk hr⟩
    obtain ⟨k, hk⟩ := mem_iff_getElem?.1 hc
    exact (h.at_ k c hk).right
  have hcount := countP_eq_iff (f := Call.unfinished) (g := Call.outstanding) (l := s.calls) fun c hc hun => by
    obtain ⟨k, hk⟩ := mem_iff_getElem?.1 hc
    simp only [Call.unfinished, Call.outstanding, Bool.and_eq_true, bne_iff_ne, ne_eq, Bool.not_eq_true'] at hun ⊢
    refine ⟨hun.1, Bool.eq_false_iff.2 fun hu => hun.2 ((h.at_ k c hk).finished hu)⟩
  refine ⟨honce, h.inflight, ⟨fun he c hc hpost hst hw => ?_, fun hd => ⟨honce, ?_⟩⟩⟩
  · have hall := hcount.1 (Int.ofNat_inj.1 (h.inflight.symm.trans he.inflight)) c hc
    by_contra hu
    have := hall (by simp [Call.outstanding, hpost, hst, Bool.eq_false_iff.2 hu])
    simp [Call.unfinished, hw] at this
  · rw [h.inflight]
    refine congrArg _ (hcount.2 fun c hc hout => ?_)
    simp only [Call.unfinished, Call.outstanding, Bool.and_eq_true, bne_iff_ne, ne_eq, Bool.not_eq_true',
      beq_iff_eq] at hout ⊢
    refine ⟨hout.1, fun hw => ?_⟩
    rw [hd c hc hout.1.1 hout.1.2 hw] at hout
    cases hout.2

end OffloadLoop

end Libx.Loop
