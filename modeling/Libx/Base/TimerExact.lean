import Libx.Base.Timer

/-!
# Libx.Base.TimerExact — a struct is in use while its task is in the heap or fired
-/

namespace Libx.Base.Timer

open Libx.Core (IndexedHeap Run replay exists_run_of_replay)
open List Function

variable {s s' : Timer} {a b id i : ℕ}

/-- The invariant. -/
structure Inv (s : Timer) : Prop where
  safe : s.faulted = false
  robbed : s.robbed = false
  refused : s.refused = []
  indexed : s.heap.Indexed
  nodup : s.fired.Nodup
  apart : ∀ a ∈ s.fired, a ∉ s.heap.data
  held : ∀ a, s.live a = true ↔ a ∈ s.heap.data ∨ a ∈ s.fired
  due : ∀ a, a ∈ s.heap.data ∨ a ∈ s.fired →
    s.handles[(s.tasks a).id]? = some a ∧ (s.tasks a).id ∉ s.log ∧ (s.tasks a).id ∉ s.cancels
  fresh : ∀ a ∈ s.heap.data, (s.tasks a).cancelled = false
  once : s.log.Nodup ∧ s.cancels.Nodup ∧ ∀ id ∈ s.cancels, id ∉ s.log
  lt : ∀ id, id ∈ s.log ∨ id ∈ s.cancels → id < s.handles.length
  kept : ∀ id < s.handles.length, id ∈ s.cancels ∨ id ∈ s.log ∨ ∃ a, (a ∈ s.heap.data ∨ a ∈ s.fired) ∧ (s.tasks a).id = id
  returned : s.returned.Nodup ∧ ∀ id, id ∈ s.returned ↔ id ∈ s.log ∨ id ∈ s.cancels

theorem Inv.exact (h : s.Inv) : s.Exact where
  safe := h.safe
  once := h.once.1
  cancelledOnce := h.once.2.1
  cancelled := h.once.2.2
  refused id hid := by
    rw [h.refused] at hid
    exact absurd hid not_mem_nil
  kept id hid := by
    rcases h.kept id hid with hc | hr | ⟨a, ha, rfl⟩
    · exact .inl hc
    · exact .inr (.inl hr)
    · exact .inr (.inr ⟨a, ha, rfl, (h.due a ha).1⟩)
  robbed := h.robbed
  returned := h.returned
  held := h.held

theorem inv_init (g : Bool) : ({ group := g } : Timer).Inv where
  safe := rfl
  robbed := rfl
  refused := rfl
  indexed i hi := absurd hi (Nat.not_lt_zero i)
  nodup := nodup_nil
  apart a ha := absurd ha not_mem_nil
  held a := by simp
  due a ha := by simp at ha
  fresh a ha := absurd ha (Array.not_mem_empty a)
  once := ⟨nodup_nil, nodup_nil, fun id hid => absurd hid not_mem_nil⟩
  lt id hid := by simp at hid
  kept id hid := absurd hid (Nat.not_lt_zero id)
  returned := ⟨nodup_nil, fun id => by simp⟩

theorem nodup_concat {l : List ℕ} (h : l.Nodup) (ha : a ∉ l) : (l ++ [a]).Nodup :=
  nodup_append.2 ⟨h, nodup_singleton a, fun _ hb _ hc he => ha (mem_singleton.1 hc ▸ he ▸ hb)⟩

/-! ### A task comes -/

theorem Inv.nowhere (h : s.Inv) (ha : s.live a = false) : a ∉ s.heap.data ∧ a ∉ s.fired := by
  have hno : ¬(a ∈ s.heap.data ∨ a ∈ s.fired) := fun hp => nomatch ha.symm.trans ((h.held a).2 hp)
  exact not_or.1 hno

theorem Inv.admit {t : TimerTask} {hp : IndexedHeap ℕ} (h : s.Inv) (ha : s.live a = false)
    (hheap : IndexedHeap.Pushed { s.heap with idx := Function.update s.heap.idx a none } a hp)
    (hid : t.id = s.handles.length) (hc : t.cancelled = false) :
    Inv { s with
      tasks := Function.update s.tasks a t, live := Function.update s.live a true, heap := hp, handles := s.handles ++ [a] } := by
  obtain ⟨hno, hnf⟩ := h.nowhere ha
  have hmem : ∀ b, b ∈ hp.data ↔ b ∈ s.heap.data ∨ b = a := hheap.mem
  have hne : ∀ b, b ∈ s.heap.data ∨ b ∈ s.fired → b ≠ a := fun b hb he => by
    subst he
    exact hb.elim hno hnf
  refine ⟨h.safe, h.robbed, h.refused, ?_, h.nodup, fun b hb => ?_, fun b => ?_, fun b hb => ?_, fun b hb => ?_, h.once,
    fun id hd => ?_, fun id hd => ?_, h.returned⟩
  · refine hheap.indexed (fun i hi => ?_) hno
    have : s.heap.data[i] ≠ a := fun he => hno (he ▸ Array.getElem_mem hi)
    exact (update_of_ne this _ _).trans (h.indexed i hi)
  · rw [hmem, not_or]
    exact ⟨h.apart b hb, hne b (.inr hb)⟩
  · dsimp only
    rw [hmem]
    by_cases hb : b = a
    · subst hb
      simp
    · rw [update_of_ne hb, h.held b]
      simp [hb]
  · dsimp only
    by_cases he : b = a
    · subst he
      rw [update_self, hid]
      refine ⟨by simp, fun hl => ?_, fun hl => ?_⟩
      · exact Nat.lt_irrefl _ (h.lt _ (.inl hl))
      · exact Nat.lt_irrefl _ (h.lt _ (.inr hl))
    · have hb' : b ∈ s.heap.data ∨ b ∈ s.fired := hb.imp_left fun hb => ((hmem b).1 hb).resolve_right he
      rw [update_of_ne he]
      obtain ⟨h1, h2⟩ := h.due b hb'
      refine ⟨?_, h2⟩
      rw [List.getElem?_append_left (List.getElem?_eq_some_iff.1 h1).1]
      exact h1
  · dsimp only
    by_cases he : b = a
    · subst he
      rw [update_self]
      exact hc
    · rw [update_of_ne he]
      exact h.fresh b (((hmem b).1 hb).resolve_right he)
  · have := h.lt id hd
    rw [length_append]
    omega
  · by_cases hlast : id < s.handles.length
    · rcases h.kept id hlast with h1 | h1 | ⟨b, hb, h1⟩
      · exact .inl h1
      · exact .inr (.inl h1)
      · refine .inr (.inr ⟨b, hb.imp_left fun hb => (hmem b).2 (.inl hb), ?_⟩)
        dsimp only
        rw [update_of_ne (hne b hb)]
        exact h1
    · refine .inr (.inr ⟨a, .inl ((hmem a).2 (.inr rfl)), ?_⟩)
      rw [length_append, length_singleton] at hd
      dsimp only
      rw [update_self, hid]
      omega

/-- **Step**: a task is submitted. -/
theorem Inv.submit (h : s.Inv) (abs : UInt64) (mem : Option ℕ) (pushOk : Bool) : (s.submit abs mem pushOk).Inv := by
  unfold Timer.submit
  cases hm : mem.filter fun a => !s.live a with
  | none => exact h
  | some a =>
    have ha : s.live a = false := by simpa using (Option.filter_eq_some_iff.1 hm).2
    cases pushOk with
    | true => exact h.admit ha (IndexedHeap.pushed_push _ _ a) rfl rfl
    | false =>
      -- the slot is given back, and nobody looks at its fields
      obtain ⟨hno, hnf⟩ := h.nowhere ha
      have hne : ∀ b, b ∈ s.heap.data ∨ b ∈ s.fired → b ≠ a := fun b hb he => by
        subst he
        exact hb.elim hno hnf
      have hlive : Function.update (Function.update s.live a true) a false = s.live := by
        rw [update_idem, ← ha, update_eq_self]
      simp only [Bool.false_eq_true, if_false, slabFree, taskInit, update_self, if_true, hlive]
      refine ⟨h.safe, h.robbed, h.refused, fun i hi => ?_, h.nodup, h.apart, h.held, fun b hb => ?_, fun b hb => ?_, h.once,
        h.lt, fun id hd => ?_, h.returned⟩
      · have : s.heap.data[i] ≠ a := fun he => hno (he ▸ Array.getElem_mem hi)
        exact (update_of_ne this _ _).trans (h.indexed i hi)
      · simp only [update_of_ne (hne b hb)]
        exact h.due b hb
      · simp only [update_of_ne (hne b (.inl hb))]
        exact h.fresh b hb
      · rcases h.kept id hd with h1 | h1 | ⟨b, hb, h1⟩
        · exact .inl h1
        · exact .inr (.inl h1)
        · refine .inr (.inr ⟨b, hb, ?_⟩)
          simp only [update_of_ne (hne b hb)]
          exact h1

/-! ### A task goes -/

theorem Inv.id_inj (h : s.Inv) (ha : a ∈ s.heap.data ∨ a ∈ s.fired) (hb : b ∈ s.heap.data ∨ b ∈ s.fired)
    (he : (s.tasks a).id = (s.tasks b).id) : a = b := by
  have h1 := (h.due a ha).1
  rw [he, (h.due b hb).1] at h1
  exact (Option.some.inj h1).symm

theorem Inv.retire (h : s.Inv) (ha : a ∈ s.heap.data ∨ a ∈ s.fired)
    (hp : ∀ b, b ∈ s'.heap.data ↔ b ∈ s.heap.data ∧ b ≠ a) (hf : ∀ b, b ∈ s'.fired ↔ b ∈ s.fired ∧ b ≠ a)
    (hi : s'.heap.Indexed) (hn : s'.fired.Nodup) (hl : s'.live = Function.update s.live a false)
    (ht : ∀ b, b ≠ a → s'.tasks b = s.tasks b) (hh : s'.handles = s.handles)
    (hd : s'.log = s.log ++ [(s.tasks a).id] ∧ s'.cancels = s.cancels ∨
      s'.log = s.log ∧ s'.cancels = s.cancels ++ [(s.tasks a).id])
    (hr : s'.returned = s.returned ++ [(s.tasks a).id]) (hrf : s'.refused = s.refused) (hs : s'.faulted = false)
    (hrb : s'.robbed = false) : s'.Inv := by
  obtain ⟨hid, hlog, hcan⟩ := h.due a ha
  have hplace : ∀ b, b ∈ s'.heap.data ∨ b ∈ s'.fired ↔ (b ∈ s.heap.data ∨ b ∈ s.fired) ∧ b ≠ a := fun b => by
    rw [hp, hf, or_and_right]
  have hdone : ∀ c, (c ∈ s'.log ∨ c ∈ s'.cancels) ↔ (c ∈ s.log ∨ c ∈ s.cancels) ∨ c = (s.tasks a).id := fun c => by
    rcases hd with ⟨h1, h2⟩ | ⟨h1, h2⟩
    · rw [h1, h2, mem_append, mem_singleton, or_right_comm]
    · rw [h1, h2, mem_append, mem_singleton, or_assoc]
  refine ⟨hs, hrb, hrf.trans h.refused, hi, hn, fun b hb => ?_, fun b => ?_, fun b hb => ?_, fun b hb => ?_, ?_, fun c hc => ?_,
    fun c hc => ?_, ?_⟩
  · rw [hp]
    exact fun hm => h.apart b ((hf b).1 hb).1 hm.1
  · rw [hplace, hl]
    by_cases he : b = a
    · subst he
      simp
    · rw [update_of_ne he, h.held b]
      simp [he]
  · obtain ⟨hb, hne⟩ := (hplace b).1 hb
    obtain ⟨h1, h2, h3⟩ := h.due b hb
    have hno : (s.tasks b).id ∉ s'.log ∧ (s.tasks b).id ∉ s'.cancels := by
      rw [← not_or, hdone, not_or, not_or]
      exact ⟨⟨h2, h3⟩, fun he => hne (h.id_inj hb ha he)⟩
    rw [ht b hne, hh]
    exact ⟨h1, hno⟩
  · obtain ⟨hb, hne⟩ := (hp b).1 hb
    rw [ht b hne]
    exact h.fresh b hb
  · obtain ⟨h1, h2, h3⟩ := h.once
    rcases hd with ⟨e1, e2⟩ | ⟨e1, e2⟩
    · rw [e1, e2]
      refine ⟨nodup_concat h1 hlog, h2, fun c hc hm => ?_⟩
      rcases mem_append.1 hm with hm | hm
      · exact h3 c hc hm
      · exact hcan (mem_singleton.1 hm ▸ hc)
    · rw [e1, e2]
      refine ⟨h1, nodup_concat h2 hcan, fun c hc hm => ?_⟩
      rcases mem_append.1 hc with hc | hc
      · exact h3 c hc hm
      · exact hlog (mem_singleton.1 hc ▸ hm)
  · rw [hh]
    rcases (hdone c).1 hc with hc | rfl
    · exact h.lt c hc
    · exact (List.getElem?_eq_some_iff.1 hid).1
  · by_cases he : c = (s.tasks a).id
    · rcases (hdone c).2 (.inr he) with h1 | h1
      · exact .inr (.inl h1)
      · exact .inl h1
    · rcases h.kept c (hh ▸ hc) with h1 | h1 | ⟨b, hb, h1⟩
      · rcases (hdone c).2 (.inl (.inr h1)) with h2 | h2
        · exact .inr (.inl h2)
        · exact .inl h2
      · rcases (hdone c).2 (.inl (.inl h1)) with h2 | h2
        · exact .inr (.inl h2)
        · exact .inl h2
      · have hne : b ≠ a := fun e => he (e ▸ h1.symm)
        exact .inr (.inr ⟨b, (hplace b).2 ⟨hb, hne⟩, by rw [ht b hne]; exact h1⟩)
  · refine ⟨?_, fun c => ?_⟩
    · rw [hr]
      exact nodup_concat h.returned.1 fun hm => ((h.returned.2 _).1 hm).elim hlog hcan
    · rw [hr, mem_append, mem_singleton, h.returned.2 c, hdone]

/-- **Step**: the timer thread fires a task. -/
theorem Inv.expire {now : UInt64} {submitOk : Bool} (h : s.Inv) (hc : s.Clean (.expire now submitOk))
    (hs : s.expire now submitOk = some s') : s'.Inv := by
  unfold Timer.expire at hs
  by_cases h0 : 0 < s.heap.data.size
  · rw [dif_pos h0] at hs
    obtain ⟨-, hs⟩ := Option.ite_none_right_eq_some.1 hs
    have hr := IndexedHeap.removed_pop s.cmpTask h.indexed h0
    have htop : s.heap.data[0] ∈ s.heap.data := Array.getElem_mem h0
    have hnf : s.heap.data[0] ∉ s.fired := fun hm => h.apart _ hm htop
    have hgroup : ¬(s.group = true ∧ submitOk = false) := fun hg => nomatch hg.2.symm.trans (hc hg.1)
    rw [fire, if_neg (by simpa using h.fresh _ htop), if_neg hgroup] at hs
    cases hs
    have hplace : ∀ b, b ∈ (s.heap.pop s.cmpTask).data ∨ b ∈ s.fired ++ [s.heap.data[0]] ↔ b ∈ s.heap.data ∨ b ∈ s.fired := by
      intro b
      rw [hr.mem, mem_append, mem_singleton]
      by_cases he : b = s.heap.data[0]
      · simp [he, htop]
      · simp [he]
    refine ⟨h.safe, h.robbed, h.refused, hr.indexed, nodup_concat h.nodup hnf, fun b hb => ?_, fun b => ?_, fun b hb => ?_,
      fun b hb => ?_, h.once, h.lt, fun id hid => ?_, h.returned⟩
    · rw [hr.mem]
      rcases mem_append.1 hb with hb | hb
      · exact fun hm => h.apart b hb hm.1
      · exact fun hm => hm.2 (mem_singleton.1 hb)
    · exact (h.held b).trans (hplace b).symm
    · exact h.due b ((hplace b).1 hb)
    · exact h.fresh b ((hr.mem b).1 hb).1
    · rcases h.kept id hid with h1 | h1 | ⟨b, hb, h1⟩
      · exact .inl h1
      · exact .inr (.inl h1)
      · exact .inr (.inr ⟨b, (hplace b).2 hb, h1⟩)
  · rw [dif_neg h0] at hs
    cases hs

/-- **Step**: a task that was fired is run. -/
theorem Inv.run (h : s.Inv) (hs : s.run i = some s') : s'.Inv := by
  unfold Timer.run at hs
  cases hi : s.fired[i]? with
  | none => simp [hi] at hs
  | some a =>
    obtain ⟨hlt, rfl⟩ := List.getElem?_eq_some_iff.1 hi
    have ha : s.fired[i] ∈ s.fired := getElem_mem hlt
    have hlive : s.live s.fired[i] = true := (h.held _).2 (.inr ha)
    have herase : s.fired.eraseIdx i = s.fired.erase s.fired[i] := (h.nodup.erase_getElem i hlt).symm
    simp only [hi, hlive, if_true, taskFree, slabFree, Option.some.injEq] at hs
    subst hs
    refine h.retire (.inr ha) (fun b => ?_) (fun b => ?_) h.indexed ?_ rfl (fun _ _ => rfl) rfl (.inl ⟨rfl, rfl⟩) rfl rfl
      h.safe h.robbed
    · refine ⟨fun hb => ⟨hb, fun he => ?_⟩, fun hb => hb.1⟩
      exact h.apart _ ha (he ▸ hb)
    · rw [herase, h.nodup.mem_erase_iff, and_comm]
    · rw [herase]
      exact h.nodup.erase _

/-- **Step**: a task in the heap is cancelled. -/
theorem Inv.cancel (h : s.Inv) (hid : s.handles[id]? = some a) (hc : s.Clean (.cancel id)) : (s.timerCancel id a).Inv := by
  obtain ⟨ha, rfl⟩ := hc a hid
  obtain ⟨i, hi, rfl⟩ := Array.mem_iff_getElem.1 ha
  have hlive : s.live s.heap.data[i] = true := (h.held _).2 (.inl ha)
  have hr := IndexedHeap.removed_removeAt s.cmpTask h.indexed hi
  have hno : s.heap.data[i] ∉ (s.heap.removeAt s.cmpTask i).data := fun hm => ((hr.mem _).1 hm).2 rfl
  have hself : ∀ b, s.heap.data[i]? = some b → b = s.heap.data[i] := fun b hb => by
    rw [Array.getElem?_eq_getElem hi] at hb
    exact (Option.some.inj hb).symm
  simp only [timerCancel, hlive, if_true, h.fresh _ ha, h.indexed i hi, taskFree, slabFree]
  refine h.retire (.inl ha) hr.mem (fun b => ?_) (fun j hj => ?_) h.nodup rfl (fun b hb => update_of_ne hb _ _) rfl
    (.inr ⟨rfl, rfl⟩) (by simp) rfl h.safe ?_
  · refine ⟨fun hb => ⟨hb, fun he => h.apart b hb (he ▸ ha)⟩, fun hb => hb.1⟩
  · have : (s.heap.removeAt s.cmpTask i).data[j] ≠ s.heap.data[i] := fun he => hno (he ▸ Array.getElem_mem hj)
    exact (update_of_ne this _ _).trans (hr.indexed j hj)
  · simpa [h.robbed] using hself

/-- **Step**: a clean step keeps the invariant. -/
theorem Inv.step {m : Act} (h : s.Inv) (hc : s.Clean m) (hs : s.step m = some s') : s'.Inv := by
  cases m with
  | submitAfter now delay mem pushOk =>
    cases hs
    exact h.submit _ mem pushOk
  | submitAt abs mem pushOk =>
    cases hs
    exact h.submit abs mem pushOk
  | expire now submitOk => exact h.expire hc hs
  | poll =>
    obtain ⟨-, hs⟩ := Option.ite_none_left_eq_some.1 hs
    exact h.run hs
  | worker i =>
    obtain ⟨-, hs⟩ := Option.ite_none_right_eq_some.1 hs
    exact h.run hs
  | cancel id =>
    rw [Timer.step] at hs
    cases hid : s.handles[id]? with
    | none => simp [hid] at hs
    | some a =>
      simp only [hid] at hs
      obtain ⟨-, hs⟩ := Option.ite_none_left_eq_some.1 hs
      cases hs
      exact h.cancel hid hc

/-- While tasks are cancelled in the heap and the group takes what is fired, every task is called once or cancelled once, no
cancel touches another task, and every struct is returned once, after its last use. -/
theorem ran_of_clean {g : Bool} (h : Run step Clean { group := g } s) : s.Exact :=
  (h.preserves (fun _ _ _ hi hc hs => Inv.step hi hc hs) (inv_init g)).exact

/-- One task is cancelled, and two are run; the slot of the first is used again. -/
theorem ran_of_clean_three : ∃ s : Timer, Run step Clean { group := false } s ∧ s.Exact ∧
    s.log = [1, 2] ∧ s.cancels = [0] ∧ s.returned = [0, 1, 2] := by
  have hreplay : replay step (fun s m => decide (s.Clean m))
      (fun s : Timer => decide (s.log = [1, 2] ∧ s.cancels = [0] ∧ s.returned = [0, 1, 2])) { group := false }
      [.submitAt 5 (some 1) true, .submitAfter 2 2 (some 2) true, .cancel 0, .submitAt 9 (some 1) true, .expire 5 true,
        .expire 9 true, .poll, .poll] = true := by
    decide +kernel
  obtain ⟨s, hr, hp⟩ := exists_run_of_replay step Clean _ _ (fun _ _ => of_decide_eq_true) hreplay
  exact ⟨s, hr, ran_of_clean hr, of_decide_eq_true hp⟩

/-- The first of two tasks has expired and is queued; its cancel takes the second out of the heap. -/
theorem not_ran_queued : ¬∀ s : Timer, Run step (fun _ _ => True) { group := false } s → s.Exact := by
  intro hall
  have hreplay : replay step (fun _ _ => true) (fun s : Timer => decide (s.robbed = true ∧ s.cancels = [0])) { group := false }
      [.submitAt 5 (some 1) true, .submitAt 9 (some 2) true, .expire 5 true, .cancel 0] = true := by
    decide +kernel
  obtain ⟨s, hr, hp⟩ := exists_run_of_replay step (fun _ _ => True) _ _ (fun _ _ _ => trivial) hreplay
  exact Bool.false_ne_true ((hall s hr).robbed.symm.trans (of_decide_eq_true hp).1)

end Libx.Base.Timer
