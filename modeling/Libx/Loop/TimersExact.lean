import Libx.Loop.Timers

/-!
# Libx.Loop.TimersExact — a struct is in one place

Every struct is in the heap, or in the free list, or in a batch, or in the hands of a call, and in one of them only.
What is in the heap, and what is popped and not called yet, is the struct of a timer that is still to be called.
-/

namespace Libx.Loop.TimerLoop

open Libx.Core (IndexedHeap Run replay exists_run_of_replay)
open List Function

/-- How often a struct is in the heap, the free list, the batches and in `x`. -/
def places (heap : IndexedHeap Addr) (free : List Addr) (batches : List Batch) (x : List Addr) (a : Addr) : ℕ :=
  (if a ∈ heap.data then 1 else 0) + free.count a + (batches.flatMap Batch.timers).count a + x.count a

/-- The structs, each in one place, `x` in the hands of a call. -/
structure Structs (timers : Addr → EventTimer) (live : Addr → Bool) (heap : IndexedHeap Addr) (free : List Addr)
    (batches : List Batch) (x : List Addr) : Prop where
  indexed : heap.Indexed
  places : ∀ a, places heap free batches x a ≤ if live a then 1 else 0
  idle : ∀ a, live a → a ∉ heap.data → a ∉ x → (timers a).fired ∨ heap.idx a = none
  heap : ∀ a ∈ heap.data, (timers a).fired = false

section Calls

variable (timers : Addr → EventTimer) (data : Array Addr) (batches : List Batch) (handles : List (Addr × ℕ))
  (log : List (ℕ × UInt64)) (cancels : List ℕ)

/-- The struct at `a` is that of a timer that is to be called. -/
structure Due (a : Addr) : Prop where
  handle : handles[(timers a).id]? = some (a, (timers a).deadline.toNat)
  ran : (timers a).id ∉ log.map Prod.fst
  cancels : (timers a).id ∉ cancels

/-- What has been called and what is to be called. -/
structure Calls : Prop where
  heap : ∀ a ∈ data, Due timers handles log cancels a
  batch : ∀ b ∈ batches, ∀ a ∈ b.timers.drop b.ran,
    Due timers handles log cancels a ∧ (timers a).deadline ≤ b.now
  once : (log.map Prod.fst).Nodup
  due : ∀ e ∈ log, ∃ a d, handles[e.1]? = some (a, d) ∧ d ≤ e.2.toNat
  cancelled : ∀ id ∈ cancels, id < handles.length ∧ id ∉ log.map Prod.fst
  kept : ∀ id < handles.length, id ∈ cancels ∨ id ∈ log.map Prod.fst ∨ (∃ a ∈ data, (timers a).id = id) ∨
    ∃ b ∈ batches, ∃ a ∈ b.timers.drop b.ran, (timers a).id = id

end Calls

structure Sound (s : TimerLoop) (x : List Addr) : Prop where
  safe : s.faulted = false
  structs : Structs s.timers s.live s.heap s.free s.batches x
  calls : Calls s.timers s.heap.data s.batches s.handles s.log s.cancels

variable {s s' : TimerLoop} {a b : Addr} {x : List Addr}

theorem Sound.exact (h : s.Sound x) : s.Exact where
  safe := h.safe
  once := h.calls.once
  due := h.calls.due
  cancelled id hid := (h.calls.cancelled id hid).2
  kept id hid := by
    obtain hc | hr | ⟨a, ha, rfl⟩ | ⟨b, hb, a, ha, rfl⟩ := h.calls.kept id hid
    · exact .inl hc
    · exact .inr (.inl hr)
    · exact .inr (.inr (.inl ⟨a, ha, rfl, (h.calls.heap a ha).handle⟩))
    · obtain ⟨hdue, hnow⟩ := h.calls.batch b hb a ha
      exact .inr (.inr (.inr ⟨b, hb, a, ha, ⟨rfl, hdue.handle⟩, hnow⟩))

theorem sound_init : Sound {} [] where
  safe := rfl
  structs := ⟨fun i hi => absurd hi (Nat.not_lt_zero i), fun a => by simp [places],
    fun a ha => absurd ha Bool.false_ne_true, fun a ha => absurd ha (Array.not_mem_empty a)⟩
  calls := ⟨fun a ha => absurd ha (Array.not_mem_empty a), fun b hb => absurd hb not_mem_nil, nodup_nil,
    fun e he => absurd he not_mem_nil, fun id hid => absurd hid not_mem_nil,
    fun id hid => absurd hid (Nat.not_lt_zero id)⟩

/-! ### Structs come and go -/

section Structs

variable {timers : Addr → EventTimer} {live : Addr → Bool} {heap : IndexedHeap Addr} {pool : List Addr}
  {batches : List Batch}

theorem Structs.live_of_places (h : Structs timers live heap pool batches x)
    (ha : 0 < TimerLoop.places heap pool batches x a) : live a := by
  have := h.places a
  by_contra hno
  rw [if_neg hno] at this
  omega

theorem Structs.places_le (h : Structs timers live heap pool batches x) (a : Addr) :
    TimerLoop.places heap pool batches x a ≤ 1 := by
  have := h.places a
  split at this <;> omega

theorem places_cons (b : Addr) : TimerLoop.places heap pool batches (a :: x) b =
    TimerLoop.places heap pool batches x b + if b = a then 1 else 0 := by
  rw [TimerLoop.places, TimerLoop.places, count_cons]
  simp only [beq_iff_eq, eq_comm (a := a)]
  omega

theorem Structs.unfree {rest : List Addr} (h : Structs timers live heap (a :: rest) batches x) :
    Structs timers live heap rest batches (a :: x) where
  indexed := h.indexed
  places b := by
    have hb := h.places b
    rw [TimerLoop.places, count_cons] at hb ⊢
    omega
  idle b hb hno hx := h.idle b hb hno fun hm => hx (mem_cons_of_mem _ hm)
  heap := h.heap

theorem Structs.calloc (h : Structs timers live heap pool batches x) (ha : live a = false) :
    Structs timers (Function.update live a true) heap pool batches (a :: x) where
  indexed := h.indexed
  places b := by
    have hb := h.places b
    rw [places_cons]
    by_cases hab : b = a
    · rw [hab, ha, if_neg Bool.false_ne_true] at hb
      rw [hab, update_self, if_pos rfl, if_pos rfl]
      omega
    · rw [update_of_ne hab, if_neg hab]
      exact hb
  idle b hb hno hx := by
    have hab : b ≠ a := fun he => hx (he ▸ mem_cons_self ..)
    rw [update_of_ne hab] at hb
    exact h.idle b hb hno fun hm => hx (mem_cons_of_mem _ hm)
  heap := h.heap

theorem Structs.pooled (h : Structs timers live heap pool batches (a :: x))
    (ha : (timers a).fired ∨ heap.idx a = none) : Structs timers live heap (a :: pool) batches x where
  indexed := h.indexed
  places b := by
    have hb := h.places b
    rw [TimerLoop.places, count_cons] at hb ⊢
    omega
  idle b hb hno hx := by
    by_cases hab : b = a
    · exact hab ▸ ha
    · exact h.idle b hb hno fun hm => (mem_cons.1 hm).elim hab hx
  heap := h.heap

theorem Structs.release (h : Structs timers live heap pool batches (a :: x)) :
    Structs timers (Function.update live a false) heap pool batches x where
  indexed := h.indexed
  places b := by
    have hb := h.places b
    rw [places_cons] at hb
    by_cases hab : b = a
    · have hle := h.places_le b
      rw [places_cons] at hle
      rw [hab, update_self, if_neg Bool.false_ne_true]
      rw [hab, if_pos rfl] at hle
      omega
    · rw [update_of_ne hab]
      rw [if_neg hab] at hb
      exact hb
  idle b hb hno hx := by
    have hab : b ≠ a := fun he => by
      rw [he, update_self] at hb
      cases hb
    rw [update_of_ne hab] at hb
    exact h.idle b hb hno fun hm => (mem_cons.1 hm).elim hab hx
  heap := h.heap

theorem Structs.nowhere (h : Structs timers live heap pool batches (a :: x)) :
    a ∉ heap.data ∧ (∀ b ∈ batches, a ∉ b.timers) ∧ a ∉ x := by
  have hle := h.places_le a
  rw [places_cons, if_pos rfl, TimerLoop.places] at hle
  refine ⟨fun hm => ?_, fun b hb hm => ?_, fun hm => ?_⟩
  · rw [if_pos hm] at hle
    omega
  · have := count_pos_iff.2 (mem_flatMap.2 ⟨b, hb, hm⟩)
    omega
  · have := count_pos_iff.2 hm
    omega

theorem Structs.init (h : Structs timers live heap pool batches (a :: x)) (t : EventTimer) :
    Structs (Function.update timers a t) live { heap with idx := Function.update heap.idx a none } pool batches
      (a :: x) where
  indexed i hi := by
    have hne : heap.data[i] ≠ a := fun he => h.nowhere.1 (he ▸ Array.getElem_mem hi)
    exact (update_of_ne hne _ _).trans (h.indexed i hi)
  places := h.places
  idle b hb hno hx := by
    have hab : b ≠ a := fun he => hx (he ▸ mem_cons_self ..)
    rw [update_of_ne hab]
    exact (h.idle b hb hno hx).imp_right (update_of_ne hab _ _).trans
  heap b hb := by
    have hab : b ≠ a := fun he => h.nowhere.1 (he ▸ hb)
    rw [update_of_ne hab]
    exact h.heap b hb

theorem Structs.push (h : Structs timers live heap pool batches (a :: x)) (lt : Addr → Addr → Bool)
    (ha : (timers a).fired = false) : Structs timers live (heap.push lt a) pool batches x := by
  have hp := IndexedHeap.pushed_push lt heap a
  refine ⟨hp.indexed h.indexed h.nowhere.1, fun b => ?_, fun b hb hno hx => ?_, fun b hb => ?_⟩
  · have hb := h.places b
    rw [places_cons, TimerLoop.places] at hb
    rw [TimerLoop.places, if_congr (hp.mem b) rfl rfl]
    split at hb <;> split at hb <;> split <;> first | omega | simp_all
  · rw [hp.mem, not_or] at hno
    rw [hp.frame b hno.1 hno.2]
    exact h.idle b hb hno.1 fun hm => (mem_cons.1 hm).elim hno.2 hx
  · obtain hb | rfl := (hp.mem b).1 hb
    · exact h.heap b hb
    · exact ha

theorem Structs.unheap {heap' : IndexedHeap Addr} (h : Structs timers live heap pool batches x)
    (hr : IndexedHeap.Removed heap a heap') (ha : a ∈ heap.data) :
    Structs timers live { heap' with idx := Function.update heap'.idx a none } pool batches (a :: x) := by
  have hno : a ∉ heap'.data := fun hm => ((hr.mem a).1 hm).2 rfl
  refine ⟨fun i hi => ?_, fun b => ?_, fun b hb hnb hx => ?_, fun b hb => h.heap b ((hr.mem b).1 hb).1⟩
  · have hne : heap'.data[i] ≠ a := fun he => hno (he ▸ Array.getElem_mem hi)
    exact (update_of_ne hne _ _).trans (hr.indexed i hi)
  · have hb := h.places b
    rw [places_cons]
    rw [TimerLoop.places] at hb ⊢
    rw [if_congr (hr.mem b) rfl rfl]
    by_cases hba : b = a
    · rw [hba, if_pos ha] at hb
      rw [hba, if_neg fun hm => hm.2 rfl, if_pos rfl]
      omega
    · rw [if_neg hba, if_congr (and_iff_left hba) rfl rfl]
      exact hb
  · have hba : b ≠ a := fun he => hx (he ▸ mem_cons_self ..)
    have hnb' : b ∉ heap.data := fun hm => hnb ((hr.mem b).2 ⟨hm, hba⟩)
    have hidx : Function.update heap'.idx a none b = heap.idx b :=
      (update_of_ne hba _ _).trans (hr.frame b hnb)
    exact (h.idle b hb hnb' fun hm => hx (mem_cons_of_mem _ hm)).imp_right hidx.trans

theorem Structs.others {b : Batch} {bs : List Batch} {rest : List Addr}
    (h : Structs timers live heap pool (b :: bs) x) (hdrop : b.timers.drop b.ran = a :: rest) :
    a ∉ heap.data ∧ a ∉ rest ∧ ∀ c ∈ bs, a ∉ c.timers := by
  have hle := h.places_le a
  have hcount : b.timers.count a = (b.timers.take b.ran).count a + (1 + rest.count a) := by
    conv_lhs => rw [← take_append_drop b.ran b.timers]
    rw [count_append, hdrop, count_cons_self]
    omega
  rw [TimerLoop.places, flatMap_cons, count_append, hcount] at hle
  refine ⟨fun hm => ?_, fun hm => ?_, fun c hc hm => ?_⟩
  · rw [if_pos hm] at hle
    omega
  · have := count_pos_iff.2 hm
    omega
  · have := count_pos_iff.2 (mem_flatMap.2 ⟨c, hc, hm⟩)
    omega

theorem Structs.popped {heap' : IndexedHeap Addr} {now : UInt64} {batch : List Addr}
    (h : Structs timers live heap pool ({ now, timers := batch } :: batches) x)
    (hr : IndexedHeap.Removed heap a heap') (ha : a ∈ heap.data) :
    Structs (Function.update timers a { timers a with fired := true }) live heap' pool
      ({ now, timers := batch ++ [a] } :: batches) x := by
  refine ⟨hr.indexed, fun b => ?_, fun b hb hnb hx => ?_, fun b hb => ?_⟩
  · have hb := h.places b
    rw [TimerLoop.places, flatMap_cons, count_append] at hb ⊢
    dsimp only at hb ⊢
    rw [count_append, count_singleton, if_congr (hr.mem b) rfl rfl]
    by_cases hba : b = a
    · rw [hba, if_pos ha] at hb
      rw [hba, if_neg fun hm => hm.2 rfl, if_pos (beq_self_eq_true a)]
      omega
    · have hab : ¬(a == b) = true := fun he => hba (beq_iff_eq.1 he).symm
      rw [if_neg hab, if_congr (and_iff_left hba) rfl rfl]
      exact hb
  · by_cases hba : b = a
    · rw [hba, update_self]
      exact .inl rfl
    · have hnb' : b ∉ heap.data := fun hm => hnb ((hr.mem b).2 ⟨hm, hba⟩)
      rw [update_of_ne hba, hr.frame b hnb]
      exact h.idle b hb hnb' hx
  · obtain ⟨hb, hba⟩ := (hr.mem b).1 hb
    rw [update_of_ne hba]
    exact h.heap b hb

theorem Structs.nodup_batch {now : UInt64} {batch : List Addr}
    (h : Structs timers live heap pool ({ now, timers := batch } :: batches) x) (ha : a ∈ heap.data) :
    (a :: batch).Nodup := by
  rw [nodup_cons]
  refine ⟨fun hm => ?_, nodup_iff_count_le_one.2 fun c => ?_⟩
  · have hle := h.places_le a
    have := count_pos_iff.2 hm
    rw [TimerLoop.places, flatMap_cons, count_append, if_pos ha] at hle
    dsimp only at hle
    omega
  · have hle := h.places_le c
    rw [TimerLoop.places, flatMap_cons, count_append] at hle
    dsimp only at hle
    omega

end Structs

section Calls

variable {timers : Addr → EventTimer} {data : Array Addr} {batches : List Batch} {handles : List (Addr × ℕ)}
  {log : List (ℕ × UInt64)} {cancels : List ℕ}

theorem Calls.init (h : Calls timers data batches handles log cancels) (hd : a ∉ data)
    (hb : ∀ b ∈ batches, a ∉ b.timers) (t : EventTimer) :
    Calls (Function.update timers a t) data batches handles log cancels := by
  have hdue : ∀ c, c ≠ a → Due timers handles log cancels c →
      Due (Function.update timers a t) handles log cancels c := by
    intro c hc hdue
    constructor <;> rw [update_of_ne hc]
    · exact hdue.handle
    · exact hdue.ran
    · exact hdue.cancels
  have hmem : ∀ c ∈ data, c ≠ a := fun c hc he => hd (he ▸ hc)
  have hdrop : ∀ b ∈ batches, ∀ c ∈ b.timers.drop b.ran, c ≠ a :=
    fun b hbs c hc he => hb b hbs (he ▸ mem_of_mem_drop hc)
  refine ⟨fun c hc => hdue c (hmem c hc) (h.heap c hc), fun b hbs c hc => ?_, h.once, h.due, h.cancelled,
    fun id hid => ?_⟩
  · obtain ⟨h1, h2⟩ := h.batch b hbs c hc
    rw [update_of_ne (hdrop b hbs c hc)]
    exact ⟨hdue c (hdrop b hbs c hc) h1, h2⟩
  · obtain hc | hr | ⟨c, hc, hid⟩ | ⟨b, hbs, c, hc, hid⟩ := h.kept id hid
    · exact .inl hc
    · exact .inr (.inl hr)
    · exact .inr (.inr (.inl ⟨c, hc, by rw [update_of_ne (hmem c hc)]; exact hid⟩))
    · exact .inr (.inr (.inr ⟨b, hbs, c, hc, by rw [update_of_ne (hdrop b hbs c hc)]; exact hid⟩))

theorem handles_append {i : ℕ} {e e' : Addr × ℕ} (h : handles[i]? = some e) : (handles ++ [e'])[i]? = some e := by
  rw [List.getElem?_append_left (List.getElem?_eq_some_iff.1 h).1]
  exact h

variable {data' : Array Addr}

theorem Calls.push (h : Calls timers data batches handles log cancels)
    (hd : ∀ b, b ∈ data' ↔ b ∈ data ∨ b = a) (hid : (timers a).id = handles.length) :
    Calls timers data' batches (handles ++ [(a, (timers a).deadline.toNat)]) log cancels := by
  have hdue : ∀ c, Due timers handles log cancels c →
      Due timers (handles ++ [(a, (timers a).deadline.toNat)]) log cancels c := fun c hc =>
    ⟨handles_append hc.handle, hc.ran, hc.cancels⟩
  have hnew : Due timers (handles ++ [(a, (timers a).deadline.toNat)]) log cancels a := by
    constructor <;> rw [hid]
    · exact List.getElem?_concat_length
    · intro hm
      obtain ⟨e, he, hlen⟩ := mem_map.1 hm
      obtain ⟨c, d, hcd, -⟩ := h.due e he
      exact absurd (List.getElem?_eq_some_iff.1 hcd).1 (by omega)
    · exact fun hm => absurd (h.cancelled _ hm).1 (Nat.lt_irrefl _)
  refine ⟨fun c hc => ?_, fun b hb c hc => (h.batch b hb c hc).imp_left (hdue c), h.once, fun e he => ?_,
    fun id hid => ?_, fun id hlt => ?_⟩
  · obtain hc | rfl := (hd c).1 hc
    · exact hdue c (h.heap c hc)
    · exact hnew
  · obtain ⟨c, d, hcd, hle⟩ := h.due e he
    exact ⟨c, d, handles_append hcd, hle⟩
  · obtain ⟨hlt, hno⟩ := h.cancelled id hid
    rw [length_append]
    exact ⟨Nat.lt_add_right _ hlt, hno⟩
  · rw [length_append, length_singleton] at hlt
    by_cases hnew : id = handles.length
    · exact .inr (.inr (.inl ⟨a, (hd a).2 (.inr rfl), hid.trans hnew.symm⟩))
    · obtain hc | hr | ⟨c, hc, hid⟩ | hb := h.kept id (by omega)
      · exact .inl hc
      · exact .inr (.inl hr)
      · exact .inr (.inr (.inl ⟨c, (hd c).2 (.inl hc), hid⟩))
      · exact .inr (.inr (.inr hb))

theorem Due.inj (ha : Due timers handles log cancels a) (hb : Due timers handles log cancels b)
    (hid : (timers a).id = (timers b).id) : a = b := by
  have h := ha.handle
  rw [hid, hb.handle] at h
  exact (congrArg Prod.fst (Option.some.inj h)).symm

theorem Calls.cancel (h : Calls timers data batches handles log cancels) {id : ℕ}
    (hlt : id < handles.length) (hran : id ∉ log.map Prod.fst)
    (hd : ∀ b, b ∈ data' ↔ b ∈ data ∧ (timers b).id ≠ id)
    (hb : ∀ b ∈ batches, ∀ a ∈ b.timers.drop b.ran, (timers a).id ≠ id) :
    Calls timers data' batches handles log (cancels ++ [id]) := by
  have hdue : ∀ c, (timers c).id ≠ id → Due timers handles log cancels c →
      Due timers handles log (cancels ++ [id]) c := fun c hne hc =>
    ⟨hc.handle, hc.ran, fun hm => (mem_append.1 hm).elim hc.cancels fun hm => hne (mem_singleton.1 hm)⟩
  refine ⟨fun c hc => hdue c ((hd c).1 hc).2 (h.heap c ((hd c).1 hc).1),
    fun b hbs c hc => (h.batch b hbs c hc).imp_left (hdue c (hb b hbs c hc)), h.once, h.due, fun i hi => ?_,
    fun i hi => ?_⟩
  · obtain hi | hi := mem_append.1 hi
    · exact h.cancelled i hi
    · rw [mem_singleton.1 hi]
      exact ⟨hlt, hran⟩
  · by_cases hii : i = id
    · exact .inl (hii ▸ mem_append_right _ (mem_singleton.2 rfl))
    · obtain hc | hr | ⟨c, hc, rfl⟩ | hb := h.kept i hi
      · exact .inl (mem_append_left _ hc)
      · exact .inr (.inl hr)
      · exact .inr (.inr (.inl ⟨c, (hd c).2 ⟨hc, hii⟩, rfl⟩))
      · exact .inr (.inr (.inr hb))

theorem Calls.run {b : Batch} {bs : List Batch} {rest : List Addr}
    (h : Calls timers data (b :: bs) handles log cancels) (hdrop : b.timers.drop b.ran = a :: rest)
    (hrest : b.timers.drop (b.ran + 1) = rest) (hd : a ∉ data) (har : a ∉ rest) (hbs : ∀ c ∈ bs, a ∉ c.timers) :
    Calls timers data ({ b with ran := b.ran + 1 } :: bs) handles (log ++ [((timers a).id, b.now)]) cancels := by
  have ⟨hdue, hnow⟩ := h.batch b (mem_cons_self ..) a (hdrop ▸ mem_cons_self ..)
  have hlog : (log ++ [((timers a).id, b.now)]).map Prod.fst = log.map Prod.fst ++ [(timers a).id] :=
    map_append
  have hstill : ∀ c, c ≠ a → Due timers handles log cancels c →
      Due timers handles (log ++ [((timers a).id, b.now)]) cancels c := by
    intro c hca hc
    refine ⟨hc.handle, ?_, hc.cancels⟩
    rw [hlog]
    exact fun hm => (mem_append.1 hm).elim hc.ran fun hm => hca (hc.inj hdue (mem_singleton.1 hm))
  refine ⟨fun c hc => hstill c (fun he => hd (he ▸ hc)) (h.heap c hc), fun c hc d hdc => ?_, ?_, fun e he => ?_,
    fun id hid => ?_, fun id hid => ?_⟩
  · obtain rfl | hc := mem_cons.1 hc
    · have hdr : d ∈ rest := hrest ▸ hdc
      obtain ⟨h1, h2⟩ := h.batch b (mem_cons_self ..) d (hdrop ▸ mem_cons_of_mem _ hdr)
      exact ⟨hstill d (fun he => har (he ▸ hdr)) h1, h2⟩
    · obtain ⟨h1, h2⟩ := h.batch c (mem_cons_of_mem _ hc) d hdc
      exact ⟨hstill d (fun he => hbs c hc (he ▸ mem_of_mem_drop hdc)) h1, h2⟩
  · rw [hlog]
    exact nodup_append.2 ⟨h.once, nodup_singleton _,
      fun i hi j hj he => hdue.ran (mem_singleton.1 hj ▸ he ▸ hi)⟩
  · obtain he | he := mem_append.1 he
    · exact h.due e he
    · rw [mem_singleton.1 he]
      exact ⟨a, _, hdue.handle, UInt64.le_iff_toNat_le.1 hnow⟩
  · obtain ⟨hlt, hno⟩ := h.cancelled id hid
    rw [hlog]
    exact ⟨hlt, fun hm => (mem_append.1 hm).elim hno fun hm => hdue.cancels (mem_singleton.1 hm ▸ hid)⟩
  · rw [hlog]
    obtain hc | hr | hheap | ⟨c, hc, d, hdc, hidd⟩ := h.kept id hid
    · exact .inl hc
    · exact .inr (.inl (mem_append_left _ hr))
    · exact .inr (.inr (.inl hheap))
    · obtain rfl | hc := mem_cons.1 hc
      · rw [hdrop] at hdc
        obtain rfl | hdc := mem_cons.1 hdc
        · exact .inr (.inl (mem_append_right _ (mem_singleton.2 hidd.symm)))
        · exact .inr (.inr (.inr ⟨_, mem_cons_self .., d, hrest.symm ▸ hdc, hidd⟩))
      · exact .inr (.inr (.inr ⟨c, mem_cons_of_mem _ hc, d, hdc, hidd⟩))

theorem Calls.popped {now : UInt64} {batch : List Addr}
    (h : Calls timers data ({ now, timers := batch } :: batches) handles log cancels)
    (hd : ∀ b, b ∈ data' ↔ b ∈ data ∧ b ≠ a) (ha : a ∈ data) (hnow : (timers a).deadline ≤ now) :
    Calls (Function.update timers a { timers a with fired := true }) data'
      ({ now, timers := batch ++ [a] } :: batches) handles log cancels := by
  have hfields : ∀ c, (Function.update timers a { timers a with fired := true } c).id = (timers c).id ∧
      (Function.update timers a { timers a with fired := true } c).deadline = (timers c).deadline := by
    intro c
    by_cases hca : c = a
    · rw [hca, update_self]
      exact ⟨rfl, rfl⟩
    · rw [update_of_ne hca]
      exact ⟨rfl, rfl⟩
  have hdue : ∀ c, Due timers handles log cancels c →
      Due (Function.update timers a { timers a with fired := true }) handles log cancels c := by
    intro c hc
    constructor <;> rw [(hfields c).1]
    · rw [(hfields c).2]
      exact hc.handle
    · exact hc.ran
    · exact hc.cancels
  refine ⟨fun c hc => hdue c (h.heap c ((hd c).1 hc).1), fun b hb c hc => ?_, h.once, h.due, h.cancelled,
    fun id hid => ?_⟩
  · rw [(hfields c).2]
    obtain rfl | hb := mem_cons.1 hb
    · obtain hc | hc := mem_append.1 hc
      · exact (h.batch _ (mem_cons_self ..) c hc).imp_left (hdue c)
      · rw [mem_singleton.1 hc]
        exact ⟨hdue a (h.heap a ha), hnow⟩
    · exact (h.batch b (mem_cons_of_mem _ hb) c hc).imp_left (hdue c)
  · simp only [hfields]
    obtain hc | hr | ⟨c, hc, hidc⟩ | ⟨b, hb, c, hc, hidc⟩ := h.kept id hid
    · exact .inl hc
    · exact .inr (.inl hr)
    · by_cases hca : c = a
      · exact .inr (.inr (.inr ⟨_, mem_cons_self .., a, mem_append_right _ (mem_singleton.2 rfl),
          hca ▸ hidc⟩))
      · exact .inr (.inr (.inl ⟨c, (hd c).2 ⟨hc, hca⟩, hidc⟩))
    · obtain rfl | hb := mem_cons.1 hb
      · exact .inr (.inr (.inr ⟨_, mem_cons_self .., c, mem_append_left _ hc, hidc⟩))
      · exact .inr (.inr (.inr ⟨b, mem_cons_of_mem _ hb, c, hc, hidc⟩))

end Calls

theorem sound_timerAlloc {mem : Option Addr} (h : s.Sound x) (hs : s.timerAlloc mem = some (a, s')) :
    s'.Sound (a :: x) := by
  rw [timerAlloc] at hs
  match hf : s.free with
  | c :: rest =>
    rw [hf] at hs
    cases hs
    exact ⟨h.safe, (hf ▸ h.structs).unfree, h.calls⟩
  | [] =>
    rw [hf] at hs
    dsimp only at hs
    match hm : mem.filter fun a => !s.live a with
    | none =>
      rw [hm] at hs
      cases hs
    | some c =>
      rw [hm] at hs
      cases hs
      have hc : s.live a = false := by
        have := (Option.filter_eq_some_iff.1 hm).2
        rwa [Bool.not_eq_true'] at this
      exact ⟨h.safe, (hf ▸ h.structs).calloc hc, h.calls⟩

theorem sound_timerFree (h : s.Sound (a :: x)) (ha : (s.timers a).fired ∨ s.heap.idx a = none) :
    (s.timerFree a).Sound x := by
  rw [timerFree]
  by_cases hlt : s.free.length < poolMax
  · rw [if_pos hlt]
    exact ⟨h.safe, h.structs.pooled ha, h.calls⟩
  · rw [if_neg hlt]
    exact ⟨h.safe, h.structs.release, h.calls⟩

/-! ### One call -/

theorem sound_submitTimer (h : s.Sound []) {deadline : UInt64} {due : ℕ} (hdue : due = deadline.toNat)
    (mem : Option Addr) (pushOk : Bool) : (s.submitTimer deadline due mem pushOk).2.Sound [] := by
  rw [submitTimer]
  match hs : s.timerAlloc mem with
  | none => exact h
  | some (a, s') =>
    have h1 := sound_timerAlloc h hs
    have hno := h1.structs.nowhere
    have hinit : (s'.timerInit a deadline).Sound [a] :=
      ⟨h1.safe, h1.structs.init _, h1.calls.init hno.1 hno.2.1 _⟩
    dsimp only
    have ht : (s'.timerInit a deadline).timers a = { deadline, id := s'.handles.length } := update_self ..
    cases pushOk with
    | false => exact sound_timerFree hinit (.inr (update_self ..))
    | true =>
      have hcalls := hinit.calls.push
        (IndexedHeap.pushed_push (s'.timerInit a deadline).earlier _ a).mem (congrArg EventTimer.id ht)
      rw [ht] at hcalls
      rw [if_pos rfl, hdue]
      exact ⟨hinit.safe, hinit.structs.push _ (congrArg EventTimer.fired ht), hcalls⟩

theorem sound_cancelHandle_heap (h : Structs s.timers s.live s.heap s.free s.batches x) (ha : a ∈ s.heap.data)
    (hsafe : s.faulted = false)
    (hcalls : ∀ data' : Array Addr, (∀ b, b ∈ data' ↔ b ∈ s.heap.data ∧ b ≠ a) →
      Calls s.timers data' s.batches s.handles s.log s.cancels) : (s.cancelHandle a).2.Sound x := by
  obtain ⟨i, hi, hget⟩ := Array.mem_iff_getElem.1 ha
  have hidx : s.heap.idx a = some i := hget ▸ h.indexed i hi
  have hr := IndexedHeap.removed_removeAt s.earlier h.indexed hi
  rw [hget] at hr
  have hlive : s.live a := h.live_of_places (by rw [TimerLoop.places, if_pos ha]; omega)
  rw [cancelHandle, if_pos hlive, h.heap a ha, hidx]
  exact sound_timerFree ⟨hsafe, h.unheap hr ha, hcalls _ hr.mem⟩ (.inr (update_self ..))

theorem cancelHandle_idle (h : Structs s.timers s.live s.heap s.free s.batches []) (ha : a ∉ s.heap.data)
    (hlive : s.live a) : s.cancelHandle a = (false, s) := by
  rw [cancelHandle, if_pos hlive]
  obtain hf | hn := h.idle a hlive ha not_mem_nil
  · rw [hf]
  · rw [hn]
    cases (s.timers a).fired <;> rfl

theorem sound_timerCancel (h : s.Sound []) {id : ℕ} {r : Bool × TimerLoop} (hclean : Clean s (.timerCancel id))
    (hs : s.timerCancel id = some r) : r.2.Sound [] := by
  rw [timerCancel] at hs
  match hh : s.handles[id]? with
  | none =>
    rw [hh] at hs
    cases hs
  | some (a, d) =>
    rw [hh] at hs
    cases hs
    have hlt := (List.getElem?_eq_some_iff.1 hh).1
    obtain ⟨ha, hid⟩ | ⟨hdone, hlive, ha⟩ := hclean (a, d) hh
    · -- It is in the heap, and no other of the timers to be called is it.
      have hdue := h.calls.heap a ha
      have hran : id ∉ s.log.map Prod.fst := hid ▸ hdue.ran
      rw [if_neg hran]
      refine sound_cancelHandle_heap h.structs ha h.safe fun data' hd => ?_
      have hne : ∀ b ∈ s.heap.data, b ≠ a ↔ (s.timers b).id ≠ id := fun b hb =>
        not_congr ⟨fun he => he ▸ hid, fun he => (h.calls.heap b hb).inj hdue (he.trans hid.symm)⟩
      refine h.calls.cancel hlt hran (fun b => (hd b).trans (and_congr_right (hne b))) fun b hb c hc he => ?_
      -- What is popped is not in the heap.
      obtain rfl := (h.calls.batch b hb c hc).1.inj hdue (he.trans hid.symm)
      have hle := h.structs.places_le c
      rw [places, if_pos ha] at hle
      have := count_pos_iff.2 (mem_flatMap.2 ⟨b, hb, mem_of_mem_drop hc⟩)
      omega
    · by_cases hran : id ∈ s.log.map Prod.fst
      · rw [if_pos hran, cancelHandle_idle h.structs ha hlive]
        exact h
      · have hc := hdone.resolve_left hran
        rw [if_neg hran, cancelHandle_idle (s := { s with cancels := s.cancels ++ [id] }) h.structs ha hlive]
        refine ⟨h.safe, h.structs, h.calls.cancel hlt hran (fun b => ?_) fun b hb c hcb he => ?_⟩
        · refine (and_iff_left_of_imp fun hb he => ?_).symm
          exact (h.calls.heap b hb).cancels (he ▸ hc)
        · exact (h.calls.batch b hb c hcb).1.cancels (he ▸ hc)

theorem sound_runNext (h : s.Sound []) (hs : s.runNext = some s') : s'.Sound [] := by
  rw [runNext] at hs
  match hb : s.batches with
  | [] =>
    rw [hb] at hs
    cases hs
  | b :: bs =>
    rw [hb] at hs
    dsimp only at hs
    match ha : b.timers[b.ran]? with
    | none =>
      rw [ha] at hs
      cases hs
    | some a =>
      rw [ha] at hs
      cases hs
      have hst := h.structs
      have hca := h.calls
      rw [hb] at hst hca
      obtain ⟨hlt, hget⟩ := List.getElem?_eq_some_iff.1 ha
      have hdrop : b.timers.drop b.ran = a :: b.timers.drop (b.ran + 1) := by
        rw [drop_eq_getElem_cons hlt, hget]
      obtain ⟨hd, har, hbs⟩ := hst.others hdrop
      exact ⟨h.safe, ⟨hst.indexed, hst.places, hst.idle, hst.heap⟩, hca.run hdrop rfl hd har hbs⟩

theorem sound_popTop {now : UInt64} {batch : List Addr} (h0 : 0 < s.heap.data.size)
    (h : Sound { s with batches := { now, timers := batch } :: s.batches } [])
    (hnow : (s.timers s.heap.data[0]).deadline ≤ now) :
    Sound { s.popTop s.heap.data[0] with
      batches := { now, timers := batch ++ [s.heap.data[0]] } :: (s.popTop s.heap.data[0]).batches } [] := by
  have hr := IndexedHeap.removed_pop s.earlier h.structs.indexed h0
  have hmem := Array.getElem_mem h0
  exact ⟨h.safe, h.structs.popped hr hmem, h.calls.popped hr.mem hmem hnow⟩

theorem sound_popExpired (all : List Addr) {now : UInt64} {fails : Option ℕ}
    (hroom : ∀ k ∈ fails, all.length ≤ 128 * 2 ^ k) (s : TimerLoop) (k : ℕ) (batch : List Addr)
    (h : Sound { s with batches := { now, timers := batch } :: s.batches } [])
    (hall : ∀ c, c ∈ batch ∨ c ∈ s.heap.data ∧ (s.timers c).deadline ≤ now → c ∈ all) :
    Sound { (popExpired now fails s k batch).1 with
      batches := { now, timers := (popExpired now fails s k batch).2 } ::
        (popExpired now fails s k batch).1.batches } [] := by
  have hnext : ∀ (s : TimerLoop) (batch : List Addr) (h0 : 0 < s.heap.data.size),
      Sound { s with batches := { now, timers := batch } :: s.batches } [] →
      (∀ c, c ∈ batch ∨ c ∈ s.heap.data ∧ (s.timers c).deadline ≤ now → c ∈ all) →
      (s.timers s.heap.data[0]).deadline ≤ now → ∀ c, c ∈ batch ++ [s.heap.data[0]] ∨
        c ∈ (s.popTop s.heap.data[0]).heap.data ∧ ((s.popTop s.heap.data[0]).timers c).deadline ≤ now → c ∈ all := by
    intro s batch h0 h hall hnow c hc
    have hr := IndexedHeap.removed_pop s.earlier h.structs.indexed h0
    obtain hc | ⟨hc, hle⟩ := hc
    · obtain hc | hc := mem_append.1 hc
      · exact hall c (.inl hc)
      · exact hall c (.inr (mem_singleton.1 hc ▸ ⟨Array.getElem_mem h0, hnow⟩))
    · obtain ⟨hc, hne⟩ := (hr.mem c).1 hc
      have hsame : (s.popTop s.heap.data[0]).timers c = s.timers c := update_of_ne hne _ _
      rw [hsame] at hle
      exact hall c (.inr ⟨hc, hle⟩)
  fun_induction popExpired now fails s k batch with
  | case1 s k batch h0 hlt => exact h
  | case3 s k batch h0 hlt hfull hgr ih =>
    have hnow := UInt64.not_lt.1 hlt
    exact ih (sound_popTop h0 h hnow) (hnext s batch h0 h hall hnow)
  | case2 s k batch h0 hlt hfull hgr =>
    -- There was no room, and there was to be some for all of these.
    have hnow := UInt64.not_lt.1 hlt
    have hsub : (s.heap.data[0] :: batch) ⊆ all := by
      intro c hc
      obtain rfl | hc := mem_cons.1 hc
      · exact hall _ (.inr ⟨Array.getElem_mem h0, hnow⟩)
      · exact hall c (.inl hc)
    have hlen := (subperm_of_subset (h.structs.nodup_batch (Array.getElem_mem h0)) hsub).length_le
    have := hroom k hgr
    rw [length_cons] at hlen
    omega
  | case4 s k batch h0 hlt hcap ih =>
    have hnow := UInt64.not_lt.1 hlt
    exact ih (sound_popTop h0 h hnow) (hnext s batch h0 h hall hnow)
  | case5 s k batch h0 => exact h

theorem sound_fireExpired (h : s.Sound []) {now : UInt64} {fails : Option ℕ} (hclean : Clean s (.fire now fails)) :
    (s.fireExpired now fails).Sound [] := by
  refine sound_popExpired (s.heap.data.toList.filter fun a => decide ((s.timers a).deadline ≤ now))
    (fun k hk => ?_) s 0 [] ⟨h.safe, ⟨h.structs.indexed, h.structs.places, h.structs.idle, h.structs.heap⟩, ?_⟩
    fun c hc => ?_
  · rw [← countP_eq_length_filter]
    exact hclean k hk
  · refine ⟨h.calls.heap, fun b hb c hc => ?_, h.calls.once, h.calls.due, h.calls.cancelled, fun id hid => ?_⟩
    · obtain rfl | hb := mem_cons.1 hb
      · cases hc
      · exact h.calls.batch b hb c hc
    · exact (h.calls.kept id hid).imp_right (Or.imp_right (Or.imp_right fun ⟨b, hb, hp⟩ =>
        ⟨b, mem_cons_of_mem _ hb, hp⟩))
  · obtain hc | ⟨hc, hle⟩ := hc
    · cases hc
    · exact mem_filter.2 ⟨Array.mem_toList_iff.2 hc, decide_eq_true hle⟩

theorem sound_foldl_timerFree : ∀ {x : List Addr} {s : TimerLoop}, s.Sound x →
    (∀ a ∈ x, (s.timers a).fired ∨ s.heap.idx a = none) → (x.foldl timerFree s).Sound []
  | [], s, h, _ => h
  | a :: x, s, h, hidle => by
    have hfree := sound_timerFree h (hidle a (mem_cons_self ..))
    rw [foldl_cons]
    refine sound_foldl_timerFree hfree fun b hb => ?_
    have hsame : (s.timerFree a).timers = s.timers ∧ (s.timerFree a).heap = s.heap := by
      rw [timerFree]
      split <;> exact ⟨rfl, rfl⟩
    rw [hsame.1, hsame.2]
    exact hidle b (mem_cons_of_mem _ hb)

theorem sound_recycle (h : s.Sound []) (hs : s.recycle = some s') : s'.Sound [] := by
  rw [recycle] at hs
  match hb : s.batches with
  | [] =>
    rw [hb] at hs
    cases hs
  | b :: bs =>
    rw [hb] at hs
    dsimp only at hs
    by_cases hlt : b.ran < b.timers.length
    · rw [if_pos hlt] at hs
      cases hs
    · rw [if_neg hlt] at hs
      cases hs
      have hst := h.structs
      have hca := h.calls
      rw [hb] at hst hca
      have hcount : ∀ a, TimerLoop.places s.heap s.free bs b.timers a = TimerLoop.places s.heap s.free (b :: bs) [] a := by
        intro a
        rw [TimerLoop.places, TimerLoop.places, flatMap_cons, count_append, count_nil]
        omega
      have hdrop : b.timers.drop b.ran = [] := drop_eq_nil_iff.2 (Nat.not_lt.1 hlt)
      refine sound_foldl_timerFree ⟨h.safe, ⟨hst.indexed, fun a => ?_, fun a ha hno _ => ?_, hst.heap⟩, ?_⟩ ?_
      · rw [hcount]
        exact hst.places a
      · exact hst.idle a ha hno not_mem_nil
      · refine ⟨hca.heap, fun c hc => hca.batch c (mem_cons_of_mem _ hc), hca.once, hca.due, hca.cancelled,
          fun id hid => ?_⟩
        refine (hca.kept id hid).imp_right (Or.imp_right (Or.imp_right fun ⟨c, hc, a, ha, hida⟩ => ?_))
        obtain rfl | hc := mem_cons.1 hc
        · rw [hdrop] at ha
          cases ha
        · exact ⟨c, hc, a, ha, hida⟩
      · intro a ha
        have hle := hst.places_le a
        have hpos := count_pos_iff.2 ha
        rw [TimerLoop.places, flatMap_cons, count_append] at hle
        have hno : a ∉ s.heap.data := fun hm => by
          rw [if_pos hm] at hle
          omega
        refine hst.idle a (hst.live_of_places ?_) hno not_mem_nil
        rw [TimerLoop.places, flatMap_cons, count_append]
        omega

theorem sound_timerStep {m : TimerStep} (h : s.Sound []) (hclean : Clean s m) (hs : timerStep s m = some s') :
    s'.Sound [] := by
  rw [timerStep.eq_def, h.safe, if_neg Bool.false_ne_true] at hs
  cases m with
  | timerAfter now delay mem pushOk =>
    cases hs
    refine sound_submitTimer h ?_ mem pushOk
    rw [UInt64.toNat_add, Nat.mod_eq_of_lt hclean]
  | timerAt abs mem pushOk =>
    cases hs
    exact sound_submitTimer h rfl mem pushOk
  | timerCancel id =>
    obtain ⟨r, hr, rfl⟩ := Option.map_eq_some_iff.1 hs
    exact sound_timerCancel h hclean hr
  | fire now fails =>
    cases hs
    exact sound_fireExpired h hclean
  | run => exact sound_runNext h hs
  | recycle => exact sound_recycle h hs

/-- In every run of calls that are clean, of nested waits too, the timers are exact. -/
theorem exact_of_clean (h : Run timerStep Clean {} s) : s.Exact :=
  (h.preserves (fun _ _ _ hs hok hstep => sound_timerStep hs hok hstep) sound_init).exact

/-- Two timers are called, and the second cancelled when it has been. -/
theorem exact_of_clean_two : ∃ s : TimerLoop, s.Exact ∧ decide (s.log = [(0, 5), (1, 5)] ∧ s.batches = []) = true := by
  have hreplay : replay timerStep (fun s m => decide (Clean s m))
      (fun s : TimerLoop => decide (s.log = [(0, 5), (1, 5)] ∧ s.batches = [])) {}
      [.timerAt 5 (some 1) true, .timerAfter 2 3 (some 2) true, .fire 4 (some 0), .recycle, .fire 5 none, .run, .run,
        .timerCancel 1, .recycle] = true := by
    decide +kernel
  obtain ⟨s, hs, hp⟩ := exists_run_of_replay timerStep Clean _ _ (fun _ _ => of_decide_eq_true) hreplay
  exact ⟨s, exact_of_clean hs, hp⟩

/-- Two timers are popped, and the first one's callback cancels the second, which is called all the same. -/
theorem not_exact_popped : ¬∀ s, Run timerStep (fun _ _ => True) {} s → s.Exact := by
  intro h
  have hreplay : replay timerStep (fun _ _ => true) (fun s : TimerLoop => decide (1 ∈ s.cancels ∧ s.Ran 1)) {}
      [.timerAt 5 (some 1) true, .timerAt 5 (some 2) true, .fire 5 none, .run, .timerCancel 1, .run] = true := by
    decide +kernel
  obtain ⟨s, hs, hp⟩ := exists_run_of_replay timerStep (fun _ _ => True) _ _ (fun _ _ _ => trivial) hreplay
  exact (h s hs).cancelled 1 (of_decide_eq_true hp).1 (of_decide_eq_true hp).2

end Libx.Loop.TimerLoop
