import Libx.Loop.Sources

/-!
# Libx.Loop.SourcesGuarded — an event holds its source

A struct is in the array from its making to the sweep that frees it, and what is registered, or is in a batch, is the
pointer of a struct of the array.
-/

namespace Libx.Loop.SourceLoop

open Libx.Core (Run replay exists_run_of_replay)
open List Function Option

/-! ### The sweep -/

theorem sweepItems_spec (deleted : Ptr → Bool) (items : List Ptr) :
    ((sweepItems deleted items).1 ++ (sweepItems deleted items).2).Perm items ∧
      (∀ a ∈ (sweepItems deleted items).1, deleted a = false) ∧ ∀ a ∈ (sweepItems deleted items).2, deleted a = true := by
  fun_induction sweepItems deleted items with
  | case1 => exact ⟨.refl _, nofun, nofun⟩
  | case2 a hd => exact ⟨.refl _, nofun, fun b hb => mem_singleton.1 hb ▸ hd⟩
  | case3 a hd b rest r ih =>
    obtain ⟨hp, hk, hf⟩ := ih
    refine ⟨?_, hk, fun c hc => ?_⟩
    · have hlast : ((b :: rest).getLast (cons_ne_nil _ _) :: (b :: rest).dropLast).Perm (b :: rest) := by
        conv_rhs => rw [← dropLast_append_getLast (cons_ne_nil b rest)]
        exact (perm_append_singleton _ _).symm
      exact perm_middle.trans ((hp.trans hlast).cons a)
    · obtain rfl | hc := mem_cons.1 hc
      · exact hd
      · exact hf c hc
  | case4 a rest hd r ih =>
    obtain ⟨hp, hk, hf⟩ := ih
    refine ⟨hp.cons a, fun c hc => ?_, hf⟩
    obtain rfl | hc := mem_cons.1 hc
    · exact Bool.eq_false_iff.2 hd
    · exact hk c hc

/-! ### The invariant -/

section Parts

variable (sources : Ptr → EventSource) (live : Ptr → Bool) (items structs : List Ptr) (dels freed : List ℕ)
  (interest : ℕ → Option Registration) (signals : ℕ → Option ℕ) (wakeFd : ℕ) (batches : List EpollBatch)

/-- Every source that is not freed has its struct in the array. -/
structure Arrayed : Prop where
  nodup : items.Nodup
  live : ∀ a, live a = true ↔ a ∈ items
  struct : ∀ a ∈ items, structs[(sources a).id]? = some a ∧ (sources a).id ∉ freed
  kept : ∀ id < structs.length, id ∈ freed ∨ ∃ a ∈ items, (sources a).id = id
  deleted : ∀ a ∈ items, (sources a).deleted = true ↔ (sources a).id ∈ dels
  freedOnce : freed.Nodup
  freed : ∀ id ∈ freed, id ∈ dels
  dels : ∀ id ∈ dels, id < structs.length

/-- The data of an event are the pointer of its source's struct, or a descriptor of the loop. -/
def Points (data : EpollData) : Origin → Prop
  | .source id => ∃ a ∈ items, data = .ptr a ∧ (sources a).id = id
  | .wake => data = .fd wakeFd
  | .signal _ => ∃ f, data = .fd f

/-- What is registered is not deleted. -/
structure Registered : Prop where
  points : ∀ f r, interest f = some r → Points sources items wakeFd r.data r.origin
  ptr : ∀ f r, interest f = some r → ∀ a, r.data = .ptr a → (sources a).deleted = false ∧ (sources a).fd = f

/-- The signals that are watched have a pipe each. -/
structure Piped : Prop where
  valid : ∀ n f, signals n = some f → f ≠ wakeFd ∧ 0 < n ∧ n < 64
  inj : ∀ n m f, signals n = some f → signals m = some f → n = m

def Held : Prop := ∀ b ∈ batches, ∀ e ∈ b.events, Points sources items wakeFd e.data e.origin

end Parts

structure Sound (s : SourceLoop) : Prop where
  safe : s.faulted = false
  arrayed : Arrayed s.sources s.live s.items s.structs s.dels s.freed
  registered : Registered s.sources s.items s.interest s.wakeFd
  piped : Piped s.signals s.wakeFd
  held : Held s.sources s.items s.wakeFd s.batches
  swept : ∀ id ∈ s.dels, id ∈ s.freed ∨ id ∈ s.unswept
  log : ∀ d ∈ s.log, d.Right

variable {s s' : SourceLoop} {a : Ptr}

theorem Sound.guarded (h : s.Sound) : s.Guarded where
  safe := h.safe
  delivered := h.log
  freedOnce := h.arrayed.freedOnce
  freed := h.arrayed.freed
  swept := h.swept
  held b hb e he id hid := by
    have hp := h.held b hb e he
    rw [hid] at hp
    obtain ⟨a, ha, -, rfl⟩ := hp
    exact (h.arrayed.struct a ha).2

section Parts

variable {sources sources' : Ptr → EventSource} {live : Ptr → Bool} {items items' structs : List Ptr}
  {dels freed : List ℕ} {interest : ℕ → Option Registration} {signals : ℕ → Option ℕ} {wakeFd : ℕ}
  {batches : List EpollBatch}

theorem update_eq_some {f f' : ℕ} {v : Option Registration} {r : Registration}
    (h : Function.update interest f v f' = some r) : f' = f ∧ v = some r ∨ f' ≠ f ∧ interest f' = some r := by
  by_cases hf : f' = f
  · subst hf
    rw [update_self] at h
    exact .inl ⟨rfl, h⟩
  · rw [update_of_ne hf] at h
    exact .inr ⟨hf, h⟩

theorem Points.mono {data : EpollData} {o : Origin} (h : Points sources items wakeFd data o)
    (hkeep : ∀ a ∈ items, data = .ptr a → a ∈ items' ∧ (sources' a).id = (sources a).id) :
    Points sources' items' wakeFd data o := by
  cases o with
  | source id =>
    obtain ⟨a, ha, hd, rfl⟩ := h
    exact ⟨a, (hkeep a ha hd).1, hd, (hkeep a ha hd).2⟩
  | wake | signal n => exact h

theorem Points.mem {o : Origin} (h : Points sources items wakeFd (.ptr a) o) :
    a ∈ items ∧ o = .source (sources a).id := by
  cases o with
  | source id =>
    obtain ⟨b, hb, hd, rfl⟩ := h
    cases hd
    exact ⟨hb, rfl⟩
  | wake => cases h
  | signal n =>
    obtain ⟨f, hf⟩ := h
    cases hf

theorem Arrayed.inj (h : Arrayed sources live items structs dels freed) {b : Ptr} (ha : a ∈ items) (hb : b ∈ items)
    (hid : (sources a).id = (sources b).id) : a = b := by
  have h1 := (h.struct a ha).1
  rw [hid, (h.struct b hb).1] at h1
  exact (some.inj h1).symm

theorem Held.mono (h : Held sources items wakeFd batches)
    (hkeep : ∀ a ∈ items, (sources' a).id = (sources a).id ∧ a ∈ items') : Held sources' items' wakeFd batches :=
  fun b hb e he => (h b hb e he).mono fun a ha _ => (hkeep a ha).symm

theorem Registered.mono (h : Registered sources items interest wakeFd)
    (hkeep : ∀ f r, interest f = some r → ∀ a ∈ items, r.data = .ptr a → (sources a).deleted = false → a ∈ items' ∧
      (sources' a).id = (sources a).id ∧ (sources' a).fd = (sources a).fd ∧ (sources' a).deleted = false) :
    Registered sources' items' interest wakeFd where
  points f r hr := (h.points f r hr).mono fun a ha hd =>
    have ⟨h1, h2, _⟩ := hkeep f r hr a ha hd (h.ptr f r hr a hd).1
    ⟨h1, h2⟩
  ptr f r hr a hd := by
    have hp := h.points f r hr
    rw [hd] at hp
    obtain ⟨-, -, hfd, hdel⟩ := hkeep f r hr a hp.mem.1 hd (h.ptr f r hr a hd).1
    exact ⟨hdel, hfd.trans (h.ptr f r hr a hd).2⟩

theorem Registered.unset (h : Registered sources items interest wakeFd) (f : ℕ) :
    Registered sources items (Function.update interest f none) wakeFd where
  points f' r hr := by
    obtain ⟨-, hr⟩ | ⟨-, hr⟩ := update_eq_some hr
    · cases hr
    · exact h.points f' r hr
  ptr f' r hr := by
    obtain ⟨-, hr⟩ | ⟨-, hr⟩ := update_eq_some hr
    · cases hr
    · exact h.ptr f' r hr

theorem Registered.set (h : Registered sources items interest wakeFd) (ha : a ∈ items)
    (hdel : (sources a).deleted = false) :
    Registered sources items
      (Function.update interest (sources a).fd (some ⟨.ptr a, .source (sources a).id⟩)) wakeFd where
  points f' r hr := by
    obtain ⟨-, hr⟩ | ⟨-, hr⟩ := update_eq_some hr
    · obtain rfl := some.inj hr
      exact ⟨a, ha, rfl, rfl⟩
    · exact h.points f' r hr
  ptr f' r hr b hd := by
    obtain ⟨hf, hr⟩ | ⟨-, hr⟩ := update_eq_some hr
    · obtain rfl := some.inj hr
      cases hd
      exact ⟨hdel, hf.symm⟩
    · exact h.ptr f' r hr b hd

theorem Registered.setFd (h : Registered sources items interest wakeFd) (f n : ℕ) :
    Registered sources items (Function.update interest f (some ⟨.fd f, .signal n⟩)) wakeFd where
  points f' r hr := by
    obtain ⟨-, hr⟩ | ⟨-, hr⟩ := update_eq_some hr
    · obtain rfl := some.inj hr
      exact ⟨f, rfl⟩
    · exact h.points f' r hr
  ptr f' r hr b hd := by
    obtain ⟨-, hr⟩ | ⟨-, hr⟩ := update_eq_some hr
    · obtain rfl := some.inj hr
      cases hd
    · exact h.ptr f' r hr b hd

theorem Arrayed.add (h : Arrayed sources live items structs dels freed) (hno : a ∉ items) {src : EventSource}
    (hid : src.id = structs.length) (hdel : src.deleted = false) :
    Arrayed (Function.update sources a src) (Function.update live a true) (items ++ [a]) (structs ++ [a]) dels
      freed := by
  have hne : ∀ b ∈ items, b ≠ a := fun b hb he => hno (he ▸ hb)
  have hnew : structs.length ∉ dels := fun hm => Nat.lt_irrefl _ (h.dels _ hm)
  refine ⟨?_, fun b => ?_, fun b hb => ?_, fun id hid' => ?_, fun b hb => ?_, h.freedOnce, h.freed, fun id hd => ?_⟩
  · exact nodup_append.2 ⟨h.nodup, pairwise_singleton _ _,
      fun b hb c hc => mem_singleton.1 hc ▸ hne b hb⟩
  · rw [mem_append, mem_singleton]
    by_cases hba : b = a
    · rw [hba, update_self]
      exact ⟨fun _ => .inr rfl, fun _ => rfl⟩
    · rw [update_of_ne hba, h.live b]
      exact (or_iff_left hba).symm
  · obtain hb | hb := mem_append.1 hb
    · rw [update_of_ne (hne b hb)]
      obtain ⟨hget, hfr⟩ := h.struct b hb
      rw [List.getElem?_append_left (List.getElem?_eq_some_iff.1 hget).1]
      exact ⟨hget, hfr⟩
    · rw [mem_singleton.1 hb, update_self, hid]
      exact ⟨List.getElem?_concat_length, fun hm => hnew (h.freed _ hm)⟩
  · rw [length_append, length_singleton] at hid'
    by_cases hlast : id = structs.length
    · exact .inr ⟨a, mem_append_right _ (mem_singleton.2 rfl), by rw [update_self, hid, hlast]⟩
    · refine (h.kept id (by omega)).imp_right fun ⟨b, hb, hbid⟩ => ⟨b, mem_append_left _ hb, ?_⟩
      rw [update_of_ne (hne b hb)]
      exact hbid
  · obtain hb | hb := mem_append.1 hb
    · rw [update_of_ne (hne b hb)]
      exact h.deleted b hb
    · rw [mem_singleton.1 hb, update_self, hid, hdel]
      exact ⟨nofun, fun hm => absurd hm hnew⟩
  · rw [length_append]
    exact Nat.lt_add_right _ (h.dels id hd)

theorem Arrayed.delete (h : Arrayed sources live items structs dels freed) (ha : a ∈ items) :
    Arrayed (Function.update sources a { sources a with deleted := true }) live items structs
      (dels ++ [(sources a).id]) freed := by
  have hid : ∀ b, (Function.update sources a { sources a with deleted := true } b).id = (sources b).id := by
    intro b
    by_cases hba : b = a
    · rw [hba, update_self]
    · rw [update_of_ne hba]
  refine ⟨h.nodup, h.live, fun b hb => ?_, fun id hlt => ?_, fun b hb => ?_, h.freedOnce,
    fun id hm => mem_append_left _ (h.freed id hm), fun id hm => ?_⟩
  · rw [hid]
    exact h.struct b hb
  · exact (h.kept id hlt).imp_right fun ⟨b, hb, hbid⟩ => ⟨b, hb, (hid b).trans hbid⟩
  · rw [hid, mem_append, mem_singleton]
    by_cases hba : b = a
    · rw [hba, update_self]
      exact ⟨fun _ => .inr rfl, fun _ => rfl⟩
    · rw [update_of_ne hba, h.deleted b hb]
      exact (or_iff_left fun he => hba (h.inj hb ha he)).symm
  · obtain hm | hm := mem_append.1 hm
    · exact h.dels id hm
    · rw [mem_singleton.1 hm]
      exact (List.getElem?_eq_some_iff.1 (h.struct a ha).1).1

theorem Arrayed.of_handle (h : Arrayed sources live items structs dels freed) {id : ℕ} (hs : structs[id]? = some a)
    (hid : id ∉ dels) : a ∈ items ∧ (sources a).id = id ∧ (sources a).deleted = false := by
  obtain hf | ⟨b, hb, rfl⟩ := h.kept id (List.getElem?_eq_some_iff.1 hs).1
  · exact absurd (h.freed id hf) hid
  · obtain rfl : b = a := some.inj ((h.struct b hb).1.symm.trans hs)
    exact ⟨hb, rfl, Bool.eq_false_iff.2 fun hd => hid ((h.deleted b hb).1 hd)⟩

theorem Arrayed.sweep (h : Arrayed sources live items structs dels freed) {r : List Ptr × List Ptr}
    (hp : (r.1 ++ r.2).Perm items)
    (hf : ∀ a ∈ r.2, (sources a).deleted = true) :
    Arrayed sources (fun a => live a && !r.2.contains a) r.1 structs dels
      (freed ++ r.2.map fun a => (sources a).id) := by
  have hmem : ∀ a, a ∈ r.1 ∨ a ∈ r.2 ↔ a ∈ items := fun a => mem_append.symm.trans hp.mem_iff
  obtain ⟨hn1, hn2, hdis⟩ := nodup_append.1 (hp.nodup_iff.2 h.nodup)
  refine ⟨hn1, fun a => ?_, fun a ha => ?_, fun id hlt => ?_, fun a ha => h.deleted a ((hmem a).1 (.inl ha)), ?_,
    fun id hm => ?_, h.dels⟩
  · rw [Bool.and_eq_true, h.live a, ← hmem, Bool.not_eq_true', ← Bool.not_eq_true, contains_iff_mem]
    exact ⟨fun ⟨ha, hno⟩ => ha.resolve_right hno, fun ha => ⟨.inl ha, fun hb => hdis a ha a hb rfl⟩⟩
  · have hi := (hmem a).1 (.inl ha)
    refine ⟨(h.struct a hi).1, fun hm => ?_⟩
    obtain hm | hm := mem_append.1 hm
    · exact (h.struct a hi).2 hm
    · obtain ⟨b, hb, hid⟩ := mem_map.1 hm
      exact hdis a ha b hb (h.inj hi ((hmem b).1 (.inr hb)) hid.symm)
  · obtain hf | ⟨a, ha, hid⟩ := h.kept id hlt
    · exact .inl (mem_append_left _ hf)
    · obtain ha | ha := (hmem a).2 ha
      · exact .inr ⟨a, ha, hid⟩
      · exact .inl (mem_append_right _ (mem_map.2 ⟨a, ha, hid⟩))
  · refine nodup_append.2 ⟨h.freedOnce, ?_, fun i hi j hj he => ?_⟩
    · exact List.Nodup.map_on (fun b hb c hc => h.inj ((hmem b).1 (.inr hb)) ((hmem c).1 (.inr hc))) hn2
    · obtain ⟨b, hb, rfl⟩ := mem_map.1 hj
      exact (h.struct b ((hmem b).1 (.inr hb))).2 (he ▸ hi)
  · obtain hm | hm := mem_append.1 hm
    · exact h.freed id hm
    · obtain ⟨b, hb, rfl⟩ := mem_map.1 hm
      exact (h.deleted b ((hmem b).1 (.inr hb))).1 (hf b hb)

end Parts

theorem sound_create (wakeFd : ℕ) : (create wakeFd).Sound where
  safe := rfl
  arrayed := ⟨nodup_nil, fun a => ⟨nofun, nofun⟩, nofun, nofun, nofun, nodup_nil, nofun, nofun⟩
  registered := by
    have hreg : ∀ f r, (create wakeFd).interest f = some r → r = ⟨.fd wakeFd, .wake⟩ := by
      intro f r hr
      have hr : Function.update (fun _ => none) wakeFd (some ⟨.fd wakeFd, .wake⟩) f = some r := hr
      obtain ⟨-, hr⟩ | ⟨-, hr⟩ := update_eq_some hr
      · exact (some.inj hr).symm
      · cases hr
    refine ⟨fun f r hr => ?_, fun f r hr a hd => ?_⟩
    · rw [hreg f r hr]
      rfl
    · rw [hreg f r hr] at hd
      cases hd
  piped := ⟨nofun, nofun⟩
  held := nofun
  swept := nofun
  log := nofun

/-! ### One call -/

theorem sound_arrayAdd {fd mask : ℕ} {mem : Option Ptr} (h : s.Sound) (hs : s.arrayAdd fd mask mem = some (a, s')) :
    s'.Sound ∧ a ∈ s'.items ∧ (s'.sources a).deleted = false ∧ (s'.sources a).fd = fd ∧
      (s'.sources a).id ∉ s'.dels ∧ ∀ f r, s'.interest f = some r → r.data ≠ .ptr a := by
  rw [arrayAdd] at hs
  match hm : mem.filter fun a => !s.live a with
  | none =>
    rw [hm] at hs
    cases hs
  | some c =>
    rw [hm] at hs
    cases hs
    have hlive : s.live a = false := by
      have := (filter_eq_some_iff.1 hm).2
      rwa [Bool.not_eq_true'] at this
    have hno : a ∉ s.items := fun hm => by
      rw [(h.arrayed.live a).2 hm] at hlive
      cases hlive
    have hne : ∀ b ∈ s.items, b ≠ a := fun b hb he => hno (he ▸ hb)
    have hnew : s.structs.length ∉ s.dels := fun hm => Nat.lt_irrefl _ (h.arrayed.dels _ hm)
    have hself : Function.update s.sources a { fd, mask, id := s.structs.length } a =
      { fd, mask, id := s.structs.length } := update_self ..
    have hother : ∀ b ∈ s.items, Function.update s.sources a { fd, mask, id := s.structs.length } b = s.sources b :=
      fun b hb => update_of_ne (hne b hb) _ _
    refine ⟨⟨h.safe, ?_, ?_, h.piped, ?_, h.swept, h.log⟩, mem_append_right _ (mem_singleton.2 rfl),
      congrArg EventSource.deleted hself, congrArg EventSource.fd hself, ?_, ?_⟩
    · exact h.arrayed.add hno rfl rfl
    · exact h.registered.mono fun f r hr b hb hd hdel => ⟨mem_append_left _ hb,
        congrArg EventSource.id (hother b hb), congrArg EventSource.fd (hother b hb),
        (congrArg EventSource.deleted (hother b hb)).trans hdel⟩
    · exact h.held.mono fun b hb => ⟨congrArg EventSource.id (hother b hb), mem_append_left _ hb⟩
    · dsimp only
      rw [hself]
      exact hnew
    · intro f r hr hd
      have hp := h.registered.points f r hr
      rw [hd] at hp
      exact hno hp.mem.1

theorem sound_arrayRemove (h : s.Sound) (ha : a ∈ s.items) (hno : ∀ f r, s.interest f = some r → r.data ≠ .ptr a) :
    (s.arrayRemove a).Sound := by
  have hother : ∀ b, b ≠ a → Function.update s.sources a { s.sources a with deleted := true } b = s.sources b :=
    fun b hb => update_of_ne hb _ _
  have hid : ∀ b, (Function.update s.sources a { s.sources a with deleted := true } b).id = (s.sources b).id := by
    intro b
    by_cases hba : b = a
    · rw [hba, update_self]
    · rw [hother b hba]
  refine ⟨h.safe, h.arrayed.delete ha, ?_, h.piped, h.held.mono fun b hb => ⟨hid b, hb⟩, fun id hm => ?_, h.log⟩
  · refine h.registered.mono fun f r hr b hb hd hdel => ?_
    have hba : b ≠ a := fun he => hno f r hr (he ▸ hd)
    exact ⟨hb, congrArg EventSource.id (hother b hba), congrArg EventSource.fd (hother b hba),
      (congrArg EventSource.deleted (hother b hba)).trans hdel⟩
  · obtain hm | hm := mem_append.1 hm
    · exact (h.swept id hm).imp_right (mem_append_left _)
    · exact .inr (mem_append_right _ hm)

theorem sound_register (h : s.Sound) (ha : a ∈ s.items) (hdel : (s.sources a).deleted = false) :
    (s.register a).Sound :=
  ⟨h.safe, h.arrayed, h.registered.set ha hdel, h.piped, h.held, h.swept, h.log⟩

theorem sound_eventAdd (h : s.Sound) (fd mask : ℕ) (mem : Option Ptr) (nonblock ctl : Bool) :
    (s.eventAdd fd mask mem nonblock ctl).2.Sound := by
  rw [eventAdd]
  match hs : s.arrayAdd fd mask mem with
  | none => exact h
  | some (a, s') =>
    obtain ⟨h', ha, hdel, -, -, hno⟩ := sound_arrayAdd h hs
    dsimp only
    split
    · exact sound_register h' ha hdel
    · exact sound_arrayRemove h' ha hno

theorem sound_eventMod (h : s.Sound) (ha : a ∈ s.items) (hdel : (s.sources a).deleted = false) (mask : ℕ)
    (ctl : Bool) : (s.eventMod a mask ctl).2.Sound := by
  rw [eventMod, (h.arrayed.live a).2 ha, Bool.not_true, if_neg Bool.false_ne_true]
  split
  · have hr := sound_register h ha hdel
    have hsame : ∀ b, (Function.update s.sources a { s.sources a with mask } b).id = (s.sources b).id ∧
        (Function.update s.sources a { s.sources a with mask } b).fd = (s.sources b).fd ∧
        (Function.update s.sources a { s.sources a with mask } b).deleted = (s.sources b).deleted := by
      intro b
      by_cases hba : b = a
      · rw [hba, update_self]
        exact ⟨rfl, rfl, rfl⟩
      · rw [update_of_ne hba]
        exact ⟨rfl, rfl, rfl⟩
    refine ⟨hr.safe, ?_, ?_, hr.piped, hr.held.mono fun b hb => ⟨(hsame b).1, hb⟩, hr.swept, hr.log⟩
    · have hx := h.arrayed
      refine ⟨hx.nodup, hx.live, fun b hb => ?_, fun id hlt => ?_, fun b hb => ?_, hx.freedOnce, hx.freed, hx.dels⟩
      · rw [(hsame b).1]
        exact hx.struct b hb
      · exact (hx.kept id hlt).imp_right fun ⟨b, hb, hid⟩ => ⟨b, hb, (hsame b).1.trans hid⟩
      · rw [(hsame b).1, (hsame b).2.2]
        exact hx.deleted b hb
    · exact hr.registered.mono fun f r hfr b hb hd hdb =>
        ⟨hb, (hsame b).1, (hsame b).2.1, (hsame b).2.2.trans hdb⟩
  · exact h

theorem sound_eventDel (h : s.Sound) (ha : a ∈ s.items) : (s.eventDel a).Sound := by
  rw [eventDel, (h.arrayed.live a).2 ha, Bool.not_true, if_neg Bool.false_ne_true]
  have hun : Sound { s with interest := Function.update s.interest (s.sources a).fd none } :=
    ⟨h.safe, h.arrayed, h.registered.unset _, h.piped, h.held, h.swept, h.log⟩
  refine sound_arrayRemove hun ha fun f r hr hd => ?_
  obtain ⟨-, hr⟩ | ⟨hf, hr⟩ := update_eq_some hr
  · cases hr
  · exact hf (h.registered.ptr f r hr a hd).2.symm

theorem Sound.findSignalByFd_iff (h : s.Sound) {fd n : ℕ} : s.findSignalByFd fd = some n ↔ s.signals n = some fd := by
  have hsome : ∀ m, s.findSignalByFd fd = some m → s.signals m = some fd := by
    intro m hm
    have := List.find?_some hm
    rw [Bool.and_eq_true, beq_iff_eq] at this
    exact this.2
  refine ⟨hsome n, fun hn => ?_⟩
  obtain ⟨-, h0, hlt⟩ := h.piped.valid n fd hn
  match hf : s.findSignalByFd fd with
  | none =>
    have := List.find?_eq_none.1 hf n (mem_range.2 hlt)
    rw [hn] at this
    exact absurd (by simp [h0]) this
  | some m => rw [h.piped.inj m n fd (hsome m hf) hn]

theorem Sound.findSignalByFd_eq_none (h : s.Sound) {fd n : ℕ} (hf : ¬(s.findSignalByFd fd).isSome) :
    s.signals n ≠ some fd :=
  fun hn => hf (isSome_iff_exists.2 ⟨n, h.findSignalByFd_iff.2 hn⟩)

theorem sound_signalWatch (h : s.Sound) {signo : ℕ} {fd : Option ℕ} (hs : s.signalWatch signo fd = some s') :
    s'.Sound := by
  rw [signalWatch.eq_def] at hs
  by_cases hv : (!signoValid signo || (s.signals signo).isSome) = true
  · rw [if_pos hv] at hs
    cases hs
    exact h
  · rw [if_neg hv] at hs
    match fd with
    | none =>
      cases hs
      exact h
    | some f =>
      dsimp only at hs
      by_cases ho : ((s.interest f).isSome || f == s.wakeFd || (s.findSignalByFd f).isSome) = true
      · rw [if_pos ho] at hs
        cases hs
      · rw [if_neg ho] at hs
        cases hs
        rw [Bool.or_eq_true, Bool.or_eq_true, not_or, not_or, beq_iff_eq] at ho
        obtain ⟨⟨-, hwake⟩, hfind⟩ := ho
        have hvalid : 0 < signo ∧ signo < 64 := by
          rw [Bool.or_eq_true, not_or, Bool.not_eq_true', Bool.not_eq_false, signoValid, Bool.and_eq_true,
            Bool.and_eq_true, Bool.and_eq_true, decide_eq_true_iff, decide_eq_true_iff] at hv
          exact hv.1.1.1
        refine ⟨h.safe, h.arrayed, h.registered.setFd f signo, ⟨fun n g hn => ?_, fun n m g hn hm => ?_⟩, h.held,
          h.swept, h.log⟩
        · dsimp only at hn
          by_cases hns : n = signo
          · rw [hns, update_self] at hn
            obtain rfl := some.inj hn
            rw [hns]
            exact ⟨hwake, hvalid⟩
          · rw [update_of_ne hns] at hn
            exact h.piped.valid n g hn
        · dsimp only at hn hm
          by_cases hns : n = signo <;> by_cases hms : m = signo
          · rw [hns, hms]
          · rw [hns, update_self] at hn
            rw [update_of_ne hms] at hm
            exact absurd (hn ▸ hm) (h.findSignalByFd_eq_none hfind)
          · rw [hms, update_self] at hm
            rw [update_of_ne hns] at hn
            exact absurd (hm ▸ hn) (h.findSignalByFd_eq_none hfind)
          · rw [update_of_ne hns] at hn
            rw [update_of_ne hms] at hm
            exact h.piped.inj n m g hn hm

theorem sound_signalCancel (h : s.Sound) (signo : ℕ) : (s.signalCancel signo).Sound := by
  rw [signalCancel]
  match s.signals signo with
  | none => exact h
  | some f =>
    have hsub : ∀ n g, Function.update s.signals signo none n = some g → s.signals n = some g := by
      intro n g hn
      by_cases hns : n = signo
      · rw [hns, update_self] at hn
        cases hn
      · rwa [update_of_ne hns] at hn
    exact ⟨h.safe, h.arrayed, h.registered.unset f, ⟨fun n g hn => h.piped.valid n g (hsub n g hn),
      fun n m g hn hm => h.piped.inj n m g (hsub n g hn) (hsub m g hm)⟩, h.held, h.swept, h.log⟩

theorem sound_close (h : s.Sound) {fd : ℕ} (hs : s.close fd = some s') : s'.Sound := by
  rw [close] at hs
  split at hs
  · cases hs
  · cases hs
    exact ⟨h.safe, h.arrayed, h.registered.unset fd, h.piped, h.held, h.swept, h.log⟩

theorem sound_beginWait (h : s.Sound) (ready : List (ℕ × Bool × Bool)) : (s.beginWait ready).Sound := by
  refine ⟨h.safe, h.arrayed, h.registered, h.piped, fun b hb e he => ?_, h.swept, h.log⟩
  obtain rfl | hb := mem_cons.1 hb
  · obtain ⟨p, -, hp⟩ := mem_filterMap.1 he
    obtain ⟨r, hr, rfl⟩ := map_eq_some_iff.1 hp
    exact h.registered.points p.1 r hr
  · exact h.held b hb e he

theorem treat_of_clean (h : s.Sound) {e : EpollEvent} (he : s.nextEvent = some e) (hclean : s.Clean .dispatch) :
    ∃ t, s.treat e = some t ∧ Delivery.Right ⟨e, t, decide (s.Deleted e)⟩ := by
  have hpoints : Points s.sources s.items s.wakeFd e.data e.origin := by
    rw [nextEvent] at he
    obtain ⟨b, hb, hget⟩ := bind_eq_some_iff.1 he
    exact h.held b (mem_of_head? hb) e (mem_of_getElem? hget)
  have hc := hclean e he
  obtain ⟨data, origin, pin, pout⟩ := e
  cases origin with
  | source id =>
    obtain ⟨a, ha, rfl, rfl⟩ := hpoints
    have hiff : s.Deleted ⟨.ptr a, .source (s.sources a).id, pin, pout⟩ ↔ (s.sources a).deleted = true := by
      rw [h.arrayed.deleted a ha]
      exact ⟨fun ⟨i, hi, hs⟩ => Origin.source.inj hs ▸ hi, fun hi => ⟨_, hi, rfl⟩⟩
    rw [treat, if_neg hc.1]
    dsimp only
    rw [hc.2]
    dsimp only
    rw [if_pos ((h.arrayed.live a).2 ha)]
    cases hd : (s.sources a).deleted with
    | true => exact ⟨.skipped, rfl, .inr ⟨decide_eq_true (hiff.2 hd), rfl⟩⟩
    | false => exact ⟨_, rfl, .inl ⟨decide_eq_false fun hn => Bool.eq_false_iff.1 hd (hiff.1 hn), rfl⟩⟩
  | wake =>
    obtain rfl : data = .fd s.wakeFd := hpoints
    exact ⟨.wake, if_pos rfl, rfl⟩
  | signal n =>
    have hn : s.signals n = some data.efd := hc
    refine ⟨.signal n, ?_, rfl⟩
    rw [treat, if_neg (h.piped.valid n _ hn).1]
    dsimp only
    rw [h.findSignalByFd_iff.2 hn]

theorem sound_dispatchNext (h : s.Sound) (hclean : s.Clean .dispatch) (hs : s.dispatchNext = some s') : s'.Sound := by
  rw [dispatchNext] at hs
  match he : s.nextEvent, hb : s.batches with
  | none, _ =>
    rw [he] at hs
    cases hs
  | some e, [] =>
    rw [he, hb] at hs
    cases hs
  | some e, b :: bs =>
    obtain ⟨t, ht, hright⟩ := treat_of_clean h he hclean
    rw [he, hb] at hs
    dsimp only at hs
    rw [ht] at hs
    cases hs
    refine ⟨h.safe, h.arrayed, h.registered, h.piped, fun c hc => ?_, h.swept, fun d hd => ?_⟩
    · obtain rfl | hc := mem_cons.1 hc
      · exact h.held b (hb ▸ mem_cons_self ..)
      · exact h.held c (hb ▸ mem_cons_of_mem _ hc)
    · obtain hd | hd := mem_append.1 hd
      · exact h.log d hd
      · rw [mem_singleton.1 hd]
        exact hright

theorem sound_endWait (h : s.Sound) (hclean : s.Clean .endWait) (hs : s.endWait = some s') : s'.Sound := by
  rw [endWait] at hs
  match hb : s.batches with
  | [] =>
    rw [hb] at hs
    cases hs
  | b :: bs =>
    rw [hb] at hs
    dsimp only at hs
    by_cases hlt : b.next < b.events.length
    · rw [if_pos hlt] at hs
      cases hs
    · rw [if_neg hlt] at hs
      cases hs
      obtain ⟨hp, hk, hf⟩ := sweepItems_spec (fun a => (s.sources a).deleted) s.items
      have hstay : ∀ a ∈ s.items, (s.sources a).deleted = false →
          a ∈ (sweepItems (fun a => (s.sources a).deleted) s.items).1 := fun a ha hd =>
        (mem_append.1 (hp.mem_iff.2 ha)).resolve_right fun hm => Bool.eq_false_iff.1 hd (hf a hm)
      have hsweep := h.arrayed.sweep hp hf
      refine ⟨h.safe, hsweep, h.registered.mono fun f r hr a ha hd hdel => ⟨hstay a ha hdel, rfl, rfl, hdel⟩, h.piped,
        fun c hc e he => ?_, fun id hm => .inl ?_, h.log⟩
      · -- What an outer batch holds stays, since it is not deleted.
        refine (h.held c (hb ▸ mem_cons_of_mem _ hc) e he).mono fun a ha hd => ⟨hstay a ha ?_, rfl⟩
        have hp' := h.held c (hb ▸ mem_cons_of_mem _ hc) e he
        rw [hd] at hp'
        rw [Clean, hb] at hclean
        exact Bool.eq_false_iff.2 fun hdel => hclean c hc e he ⟨_, (h.arrayed.deleted a ha).1 hdel, hp'.mem.2⟩
      · obtain hfr | ⟨a, ha, rfl⟩ := hsweep.kept id (h.arrayed.dels id hm)
        · exact hfr
        · exact absurd ((hsweep.deleted a ha).2 hm) (Bool.eq_false_iff.1 (hk a ha))

theorem sound_step {m : Step} (h : s.Sound) (hclean : s.Clean m) (hs : step s m = some s') : s'.Sound := by
  rw [step.eq_def, h.safe, if_neg Bool.false_ne_true] at hs
  cases m with
  | eventAdd fd mask mem nonblock ctl =>
    cases hs
    exact sound_eventAdd h ..
  | eventMod id mask ctl =>
    obtain ⟨a, ha, rfl⟩ := map_eq_some_iff.1 hs
    obtain ⟨hmem, -, hdel⟩ := h.arrayed.of_handle ha hclean
    exact sound_eventMod h hmem hdel mask ctl
  | eventDel id =>
    obtain ⟨a, ha, rfl⟩ := map_eq_some_iff.1 hs
    exact sound_eventDel h (h.arrayed.of_handle ha hclean).1
  | signalWatch signo fd => exact sound_signalWatch h hs
  | signalCancel signo =>
    cases hs
    exact sound_signalCancel h signo
  | close fd => exact sound_close h hs
  | beginWait ready =>
    cases hs
    exact sound_beginWait h ready
  | dispatch => exact sound_dispatchNext h hclean hs
  | endWait => exact sound_endWait h hclean hs

/-- In every run of calls that are clean, of nested waits too, the sources are guarded. -/
theorem guarded_of_clean {wakeFd : ℕ} (h : Run step Clean (create wakeFd) s) : s.Guarded :=
  (h.preserves (fun _ _ _ hs hok hstep => sound_step hs hok hstep) (sound_create wakeFd)).guarded

/-- The first callback deletes the source of the second event, and waits. -/
theorem guarded_of_clean_second : ∃ s : SourceLoop, s.Guarded ∧
    decide (s.log.map Delivery.treated = [.called 0 true false, .skipped] ∧ s.freed = [1]) = true := by
  have hreplay : replay step (fun s m => decide (s.Clean m))
      (fun s : SourceLoop => decide (s.log.map Delivery.treated = [.called 0 true false, .skipped] ∧ s.freed = [1]))
      (create 3)
      [.eventAdd 5 1 (some 4096) true true, .eventAdd 6 1 (some 8192) true true,
        .beginWait [(5, true, false), (6, true, false)], .dispatch, .eventDel 1, .dispatch, .endWait] = true := by
    decide +kernel
  obtain ⟨s, hs, hp⟩ := exists_run_of_replay step Clean _ _ (fun _ _ => of_decide_eq_true) hreplay
  exact ⟨s, guarded_of_clean hs, hp⟩

/-- The first callback deletes the source of the second event and waits itself: the inner wait frees the struct, and the
outer one reads it. -/
theorem not_guarded_nested : ¬∀ wakeFd s, Run step (fun _ _ => True) (create wakeFd) s → s.Guarded := by
  intro h
  have hreplay : replay step (fun _ _ => true) (fun s : SourceLoop => s.faulted) (create 3)
      [.eventAdd 5 1 (some 4096) true true, .eventAdd 6 1 (some 8192) true true,
        .beginWait [(5, true, false), (6, true, false)], .dispatch, .eventDel 1, .beginWait [], .endWait,
        .dispatch] = true := by
    decide +kernel
  obtain ⟨s, hs, hp⟩ := exists_run_of_replay step (fun _ _ => True) _ _ (fun _ _ _ => trivial) hreplay
  exact Bool.false_ne_true ((h 3 s hs).safe.symm.trans hp)

end Libx.Loop.SourceLoop
