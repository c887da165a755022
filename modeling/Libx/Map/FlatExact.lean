import Libx.Map.Flat

/-!
# Libx.Map.FlatExact — what an open-addressing table stands for
-/

namespace Libx.Map.FlatMap

open Libx.Core (Lists assign unassign flatMap_update lowBit lowBit_pos lowBit_le and_block exists_probe submasks
  mem_submasks card_submasks_double)

variable {K V : Type}

theorem length_entry (s : Slot K V) : s.entry.length = if s.isOccupied then 1 else 0 := by
  cases s <;> rfl

theorem mem_entry {s : Slot K V} {e : K × V} : e ∈ s.entry ↔ s = .occupied e.1 e.2 := by
  cases s <;> simp [Slot.entry, Prod.ext_iff, eq_comm]

section Loops

variable (keys : Keys K)

/-- An entry in slot `j` is found from its index: the slots before are not empty. -/
def Reached (cap : ℕ) (slots : ℕ → Slot K V) (key : K) (j : ℕ) : Prop :=
  ∃ i < cap, probeAt keys cap key i = j ∧ ∀ i' < i, (slots (probeAt keys cap key i')).isEmpty = false

structure Rep (f : FlatMap K V) (m : K → Option V) : Prop where
  cap : 0 < f.cap
  reached : ∀ j k v, f.slots j = .occupied k v → Reached keys f.cap f.slots k j
  size : f.size = f.entries.length
  lists : Lists keys.eq f.entries m

/-- The loop goes on after the slot `i`. -/
def Passed (f : FlatMap K V) (key : K) (i : ℕ) : Prop :=
  f.slots (probeAt keys f.cap key i) = .tombstone ∨
    ∃ k v, f.slots (probeAt keys f.cap key i) = .occupied k v ∧ keys.eq k key = false

def Missed (f : FlatMap K V) (key : K) : Prop :=
  (∀ i < f.cap, Passed keys f key i) ∨
    ∃ i < f.cap, f.slots (probeAt keys f.cap key i) = .empty ∧ ∀ i' < i, Passed keys f key i'

end Loops

variable {keys : Keys K} {f : FlatMap K V} {m : K → Option V} {key : K} {val : V}

variable {cap : ℕ}

theorem probeAt_lt (keys : Keys K) (hcap : 0 < cap) (key : K) (i : ℕ) : probeAt keys cap key i < cap :=
  Nat.lt_of_le_of_lt Nat.and_le_right (by omega)

theorem probeAt_congr {k : K} (hk : keys.eq k key = true) (i : ℕ) :
    probeAt keys cap k i = probeAt keys cap key i := by
  rw [probeAt, probeAt, Keys.index_congr hk]

variable {i : ℕ}

theorem Passed.not_empty (h : Passed keys f key i) : (f.slots (probeAt keys f.cap key i)).isEmpty = false := by
  obtain h | ⟨k, v, h, -⟩ := h <;> rw [h] <;> rfl

theorem mem_entries (h : Rep keys f m) {e : K × V} : e ∈ f.entries ↔ ∃ j, f.slots j = .occupied e.1 e.2 := by
  simp only [entries, List.mem_flatMap, List.mem_range, mem_entry]
  constructor
  · rintro ⟨j, -, hj⟩
    exact ⟨j, hj⟩
  · rintro ⟨j, hj⟩
    obtain ⟨i, -, rfl, -⟩ := h.reached j _ _ hj
    exact ⟨_, probeAt_lt _ h.cap .., hj⟩

theorem Missed.absent (h : Rep keys f m) (hmiss : Missed keys f key) : ∀ e ∈ f.entries, keys.eq e.1 key = false := by
  intro e he
  by_contra hk
  have hk : keys.eq e.1 key = true := by simpa using hk
  obtain ⟨j, hj⟩ := (mem_entries h).1 he
  obtain ⟨i, hi, rfl, hbefore⟩ := h.reached j _ _ hj
  rw [probeAt_congr hk] at hj
  have hpassed : ¬Passed keys f key i := by
    rintro (ht | ⟨k, v, ho, hno⟩)
    · rw [hj] at ht
      cases ht
    · rw [hj] at ho
      cases ho
      rw [hk] at hno
      cases hno
  obtain hall | ⟨i', -, hempty, hall⟩ := hmiss
  · exact hpassed (hall i hi)
  · obtain hlt | rfl | hlt := Nat.lt_trichotomy i i'
    · exact hpassed (hall i hlt)
    · rw [hj] at hempty
      cases hempty
    · have := hbefore i' hlt
      rw [probeAt_congr hk, hempty] at this
      cases this

/-- **The loop of `flat_get` and `flat_del`**, after some slots. -/
theorem find_spec {n : ℕ} (hn : i + n = f.cap) (hpassed : ∀ i' < i, Passed keys f key i') :
    match f.find keys key n i with
    | some (cur, v) => ∃ k, f.slots cur = .occupied k v ∧ keys.eq k key = true
    | none => Missed keys f key := by
  induction n generalizing i with
  | zero => exact .inl fun i' hi' => hpassed i' (by omega)
  | succ n ih =>
    have hnext : Passed keys f key i → ∀ i' < i + 1, Passed keys f key i' := fun hp i' hi' => by
      obtain hlt | rfl := Nat.lt_succ_iff_lt_or_eq.1 hi'
      · exact hpassed i' hlt
      · exact hp
    rw [find]
    cases hs : f.slots (probeAt keys f.cap key i) with
    | empty => exact .inr ⟨i, by omega, hs, hpassed⟩
    | tombstone => exact ih (by omega) (hnext (.inl hs))
    | occupied k v =>
      by_cases hk : keys.eq k key = true
      · dsimp only
        rw [if_pos hk]
        exact ⟨k, hs, hk⟩
      · dsimp only
        rw [if_neg hk]
        exact ih (by omega) (hnext (.inr ⟨k, v, hs, by simpa using hk⟩))

def Open (keys : Keys K) (f : FlatMap K V) (key : K) (j : ℕ) : Prop :=
  (f.slots j).isOccupied = false ∧ Reached keys f.cap f.slots key j

/-- **The loop of `flat_set`**, after some slots. -/
theorem probe_spec {n : ℕ} {tombstone : Option ℕ} (hn : i + n = f.cap) (hpassed : ∀ i' < i, Passed keys f key i')
    (htomb : ∀ t ∈ tombstone, Open keys f key t) :
    match f.probe keys key n i tombstone with
    | .found cur k => ∃ v, f.slots cur = .occupied k v ∧ keys.eq k key = true
    | .free ins => Open keys f key ins ∧
      ∃ i < f.cap, f.slots (probeAt keys f.cap key i) = .empty ∧ ∀ i' < i, Passed keys f key i'
    | .full => ∀ i' < f.cap, Passed keys f key i' := by
  induction n generalizing i tombstone with
  | zero => exact fun i' hi' => hpassed i' (by omega)
  | succ n ih =>
    have hnext : Passed keys f key i → ∀ i' < i + 1, Passed keys f key i' := fun hp i' hi' => by
      obtain hlt | rfl := Nat.lt_succ_iff_lt_or_eq.1 hi'
      · exact hpassed i' hlt
      · exact hp
    have hreached : Reached keys f.cap f.slots key (probeAt keys f.cap key i) :=
      ⟨i, by omega, rfl, fun i' hi' => (hpassed i' hi').not_empty⟩
    rw [probe]
    cases hs : f.slots (probeAt keys f.cap key i) with
    | empty =>
      refine ⟨?_, i, by omega, hs, hpassed⟩
      cases tombstone with
      | none => exact ⟨by rw [Option.getD_none, hs]; rfl, hreached⟩
      | some t => exact htomb t rfl
    | tombstone =>
      refine ih (by omega) (hnext (.inl hs)) fun t ht => ?_
      cases tombstone with
      | none =>
        obtain rfl : probeAt keys f.cap key i = t := by simpa using ht
        exact ⟨by rw [hs]; rfl, hreached⟩
      | some t' => exact htomb t (by simpa using ht)
    | occupied k v =>
      by_cases hk : keys.eq k key = true
      · dsimp only
        rw [if_pos hk]
        exact ⟨v, hs, hk⟩
      · dsimp only
        rw [if_neg hk]
        exact ih (by omega) (hnext (.inr ⟨k, v, hs, by simpa using hk⟩)) htomb

theorem find_start (keys : Keys K) (f : FlatMap K V) (key : K) :
    match f.find keys key f.cap 0 with
    | some (cur, v) => ∃ k, f.slots cur = .occupied k v ∧ keys.eq k key = true
    | none => Missed keys f key :=
  find_spec (Nat.zero_add _) nofun

theorem probe_start (keys : Keys K) (f : FlatMap K V) (key : K) :
    match f.probe keys key f.cap 0 none with
    | .found cur k => ∃ v, f.slots cur = .occupied k v ∧ keys.eq k key = true
    | .free ins => Open keys f key ins ∧
      ∃ i < f.cap, f.slots (probeAt keys f.cap key i) = .empty ∧ ∀ i' < i, Passed keys f key i'
    | .full => ∀ i' < f.cap, Passed keys f key i' :=
  probe_spec (Nat.zero_add _) nofun nofun

/-! ### One slot changes -/

theorem entries_split (slots : ℕ → Slot K V) {j : ℕ} (hj : j < cap) : ∃ a b,
    ((List.range cap).flatMap fun i => (slots i).entry) = a ++ (slots j).entry ++ b ∧
      ∀ s, ((List.range cap).flatMap fun i => (Function.update slots j s i).entry) = a ++ s.entry ++ b := by
  obtain ⟨a, b, hab⟩ := flatMap_update (fun i => (slots i).entry) hj
  have hupd : ∀ s : Slot K V, (fun i => (Function.update slots j s i).entry) =
      Function.update (fun i => (slots i).entry) j s.entry := fun s =>
    Function.comp_update (f := Slot.entry) (g := slots) (i := j) (v := s)
  refine ⟨a, b, ?_, fun s => by rw [hupd, hab]⟩
  have hself := hab (slots j).entry
  rwa [Function.update_eq_self (f := fun i => (slots i).entry)] at hself

variable {slots : ℕ → Slot K V}

theorem Reached.update {k : K} {j j' : ℕ} {s : Slot K V}
    (h : Reached keys cap slots k j) (hs : s.isEmpty = false) : Reached keys cap (Function.update slots j' s) k j := by
  obtain ⟨i, hi, hj, hbefore⟩ := h
  refine ⟨i, hi, hj, fun i' hi' => ?_⟩
  by_cases he : probeAt keys cap k i' = j'
  · rw [he, Function.update_self]
    exact hs
  · rw [Function.update_of_ne he]
    exact hbefore i' hi'

theorem reached_occupied {key : K} {val : V} {j : ℕ}
    (hslots : ∀ j k v, slots j = .occupied k v → Reached keys cap slots k j) (hj : Reached keys cap slots key j) :
    ∀ j' k v, Function.update slots j (.occupied key val) j' = .occupied k v →
      Reached keys cap (Function.update slots j (.occupied key val)) k j' := by
  intro j' k v hk
  by_cases he : j' = j
  · rw [he, Function.update_self] at hk
    cases hk
    rw [he]
    exact hj.update rfl
  · rw [Function.update_of_ne he] at hk
    exact (hslots j' k v hk).update rfl

theorem rep_create (hcap : 0 < cap) : Rep keys ({ cap } : FlatMap K V) fun _ => none := by
  have hnil : ({ cap } : FlatMap K V).entries = [] := List.flatMap_eq_nil_iff.2 fun _ _ => rfl
  exact ⟨hcap, nofun, by rw [hnil]; rfl, by rw [hnil]; exact Lists.nil⟩

theorem rep_put (h : Rep keys f m) (hfull : f.probe keys key f.cap 0 none ≠ .full) (val : V) :
    (f.put keys key val).1 = .ok ∧ Rep keys (f.put keys key val).2 (assign keys.eq m key val) := by
  have hspec := probe_start keys f key
  rw [put]
  cases hprobe : f.probe keys key f.cap 0 none with
  | full => exact absurd hprobe hfull
  | found cur k =>
    rw [hprobe] at hspec
    obtain ⟨v, hs, hk⟩ := hspec
    obtain ⟨i, hi, hcur, hbefore⟩ := h.reached cur k v hs
    obtain ⟨a, b, hab, hnew⟩ := entries_split f.slots (show cur < f.cap by rw [← hcur]; exact probeAt_lt _ h.cap ..)
    have hentries : f.entries = a ++ (k, v) :: b := by
      rw [entries, hab, hs]
      simp [Slot.entry]
    have hafter : ((List.range f.cap).flatMap fun i => (Function.update f.slots cur (.occupied k val) i).entry) =
        a ++ (k, val) :: b := by
      rw [hnew]
      simp [Slot.entry]
    refine ⟨rfl, h.cap, reached_occupied h.reached ⟨i, hi, hcur, hbefore⟩, ?_, ?_⟩
    · rw [entries, hafter, h.size, hentries]
      simp
    · rw [entries, hafter]
      exact (hentries ▸ h.lists).change keys.equiv hk val
  | free ins =>
    rw [hprobe] at hspec
    obtain ⟨⟨hs, hreached⟩, hend⟩ := hspec
    have hmiss : Missed keys f key := .inr hend
    obtain ⟨i, -, hins, -⟩ := id hreached
    obtain ⟨a, b, hab, hnew⟩ := entries_split f.slots (show ins < f.cap by rw [← hins]; exact probeAt_lt _ h.cap ..)
    have hnil : (f.slots ins).entry = [] := by
      rw [← List.length_eq_zero_iff, length_entry, hs]
      rfl
    have hperm : (a ++ [(key, val)] ++ b).Perm ((key, val) :: f.entries) := by
      rw [entries, hab, hnil, List.append_nil, List.append_assoc, List.singleton_append]
      exact List.perm_middle
    refine ⟨rfl, h.cap, reached_occupied h.reached hreached, ?_, ?_⟩
    · rw [entries, hnew, h.size]
      exact hperm.length_eq.symm
    · rw [entries, hnew]
      exact (h.lists.cons keys.equiv (hmiss.absent h) val).perm keys.equiv hperm.symm

theorem find_cases (h : Rep keys f m) (key : K) :
    (f.find keys key f.cap 0 = none ∧ m key = none) ∨
      ∃ cur k v, f.find keys key f.cap 0 = some (cur, v) ∧ f.slots cur = .occupied k v ∧ keys.eq k key = true := by
  have hspec := find_start keys f key
  cases hfind : f.find keys key f.cap 0 with
  | none =>
    rw [hfind] at hspec
    exact .inl ⟨rfl, h.lists.get_none (hspec.absent h)⟩
  | some r =>
    rw [hfind] at hspec
    obtain ⟨k, hs, hk⟩ := hspec
    exact .inr ⟨r.1, k, r.2, rfl, hs, hk⟩

theorem rep_get [Zero V] (h : Rep keys f m) (key : K) : f.get keys key = (m key).getD 0 := by
  rw [get]
  obtain ⟨hfind, hm⟩ | ⟨cur, k, v, hfind, hs, hk⟩ := find_cases h key
  · rw [hfind, hm]
    rfl
  · rw [hfind, h.lists.get_of_mem ((mem_entries h (e := (k, v))).2 ⟨cur, hs⟩) hk]
    rfl

theorem rep_del [Zero V] (h : Rep keys f m) (key : K) :
    (f.del keys key).1 = (m key).getD 0 ∧ Rep keys (f.del keys key).2 (unassign keys.eq m key) := by
  rw [del]
  obtain ⟨hfind, hm⟩ | ⟨cur, k, v, hfind, hs, hk⟩ := find_cases h key
  · rw [hfind, hm, h.lists.unassign_eq keys.equiv hm]
    exact ⟨rfl, h⟩
  · obtain ⟨i, -, hcur, -⟩ := h.reached cur k v hs
    obtain ⟨a, b, hab, hnew⟩ := entries_split f.slots (show cur < f.cap by rw [← hcur]; exact probeAt_lt _ h.cap ..)
    have hentries : f.entries = a ++ (k, v) :: b := by
      rw [entries, hab, hs]
      simp [Slot.entry]
    have hafter : ((List.range f.cap).flatMap fun i => (Function.update f.slots cur .tombstone i).entry) = a ++ b := by
      rw [hnew]
      simp [Slot.entry]
    rw [hfind]
    dsimp only
    refine ⟨by rw [h.lists.get_of_mem ((mem_entries h (e := (k, v))).2 ⟨cur, hs⟩) hk]; rfl, h.cap, fun j k' v' hj => ?_,
      ?_, ?_⟩
    · dsimp only at hj
      by_cases hne : j = cur
      · rw [hne, Function.update_self] at hj
        cases hj
      · rw [Function.update_of_ne hne] at hj
        exact (h.reached j k' v' hj).update rfl
    · rw [entries, hafter, h.size, hentries]
      simp
    · rw [entries, hafter]
      exact (hentries ▸ h.lists).remove keys.equiv hk

theorem iterateFrom_eq (f : FlatMap K V) (fn : List (K × V) → Bool) (done : List (K × V)) (is : List ℕ) :
    f.iterateFrom fn done is = (visit fn done (is.flatMap fun i => (f.slots i).entry)).1 := by
  induction is generalizing done with
  | nil => rfl
  | cons i is ih =>
    rw [iterateFrom, List.flatMap_cons, visit_append]
    split
    · next d hd =>
      rw [hd, if_pos rfl]
      exact ih d
    · next d hd => rw [hd, if_neg nofun]

theorem iterate_eq (f : FlatMap K V) (fn : List (K × V) → Bool) : f.iterate fn = (visit fn [] f.entries).1 :=
  iterateFrom_eq f fn [] _

/-! ### The new table -/

theorem length_flatMap_eq_card {α : Type} (g : ℕ → List α) (q : ℕ → Bool) (hg : ∀ j, (g j).length = if q j then 1 else 0)
    (n : ℕ) : ((List.range n).flatMap g).length = ((Finset.range n).filter fun j => q j = true).card := by
  induction n with
  | zero => rfl
  | succ n ih =>
    rw [List.range_succ, List.flatMap_append, List.length_append, ih, Finset.range_add_one, Finset.filter_insert,
      List.flatMap_singleton, hg]
    split
    · rw [Finset.card_insert_of_notMem (by simp)]
    · rfl

section Move

variable {cap : ℕ} {slots : ℕ → Slot K V} {e : K × V}

theorem probeAt_block (hcap : 0 < cap) (hi : i ≤ lowBit cap) : probeAt keys cap key i =
    lowBit cap * block keys cap key + (keys.index cap key % lowBit cap + i) % lowBit cap := by
  refine and_block hcap ?_ hi
  rw [Keys.index, Nat.and_assoc, Nat.and_self]

theorem probeAt_and (cap : ℕ) (key : K) (i : ℕ) : probeAt keys cap key i &&& (cap - 1) = probeAt keys cap key i := by
  rw [probeAt, Nat.and_assoc, Nat.and_self]

theorem probeAt_succ (hcap : 0 < cap) (hi : i < lowBit cap) :
    (probeAt keys cap key i + 1) &&& (cap - 1) = probeAt keys cap key (i + 1) := by
  have hpos := lowBit_pos cap
  rw [and_block hcap (probeAt_and ..) hpos, probeAt_block hcap hi, probeAt_block hcap hi.le]
  have hmod : (keys.index cap key % lowBit cap + i) % lowBit cap < lowBit cap := Nat.mod_lt _ hpos
  rw [Nat.mul_add_div hpos, Nat.div_eq_of_lt hmod, Nat.mul_add_mod, Nat.mod_mod, Nat.mod_add_mod, Nat.add_zero,
    Nat.add_assoc]

def load (cap : ℕ) (slots : ℕ → Slot K V) (b : ℕ) : List (K × V) :=
  (List.range (lowBit cap)).flatMap fun o => (slots (lowBit cap * b + o)).entry

theorem load_lt_iff {b : ℕ} : (load cap slots b).length < lowBit cap ↔
    ∃ o < lowBit cap, (slots (lowBit cap * b + o)).isOccupied = false := by
  rw [load, length_flatMap_eq_card _ (fun o => (slots (lowBit cap * b + o)).isOccupied) (fun o => length_entry _)]
  constructor
  · intro hlt
    by_contra hno
    rw [Finset.filter_true_of_mem, Finset.card_range] at hlt
    · omega
    · intro o ho
      by_contra hocc
      exact hno ⟨o, Finset.mem_range.1 ho, by simpa using hocc⟩
  · rintro ⟨o, ho, hocc⟩
    have hss := Finset.card_lt_card (Finset.filter_ssubset.2
      ⟨o, Finset.mem_range.2 ho, fun h => absurd (hocc.symm.trans h) nofun⟩ :
      (Finset.range (lowBit cap)).filter (fun o => (slots (lowBit cap * b + o)).isOccupied = true) ⊂ _)
    rwa [Finset.card_range] at hss

theorem exists_probeAt (keys : Keys K) (key : K) (hcap : 0 < cap) {o : ℕ} (ho : o < lowBit cap) :
    ∃ i < lowBit cap, probeAt keys cap key i = lowBit cap * block keys cap key + o := by
  have hpos := lowBit_pos cap
  have hmod : keys.index cap key % lowBit cap < lowBit cap := Nat.mod_lt _ hpos
  -- The steps from the index to the slot, around the block.
  refine ⟨(o + (lowBit cap - keys.index cap key % lowBit cap)) % lowBit cap, Nat.mod_lt _ hpos, ?_⟩
  rw [probeAt_block hcap (Nat.mod_lt _ hpos).le, Nat.add_mod_mod,
    show keys.index cap key % lowBit cap + (o + (lowBit cap - keys.index cap key % lowBit cap)) = o + lowBit cap by omega,
    Nat.add_mod_right, Nat.mod_eq_of_lt ho]

theorem probeAt_zero (hcap : 0 < cap) : probeAt keys cap key 0 = keys.index cap key := by
  rw [probeAt_block hcap (Nat.zero_le _), Nat.add_zero, Nat.mod_mod, block, Nat.div_add_mod]

theorem freeSlot_some (hcap : 0 < cap) (hload : (load cap slots (block keys cap key)).length < lowBit cap) :
    ∃ i < lowBit cap, freeSlot cap slots cap (keys.index cap key) = some (probeAt keys cap key i) ∧
      (slots (probeAt keys cap key i)).isOccupied = false ∧
      ∀ i' < i, (slots (probeAt keys cap key i')).isOccupied = true := by
  have hex : ∃ i, i < lowBit cap ∧ (slots (probeAt keys cap key i)).isOccupied = false := by
    obtain ⟨o, ho, hfree⟩ := load_lt_iff.1 hload
    obtain ⟨i, hi, hio⟩ := exists_probeAt keys key hcap ho
    exact ⟨i, hi, by rw [hio]; exact hfree⟩
  obtain ⟨i, ⟨hi, hfree⟩, hmin⟩ := (⟨Nat.find hex, Nat.find_spec hex, fun i' hi' => Nat.find_min hex hi'⟩ :
    ∃ i, (i < lowBit cap ∧ (slots (probeAt keys cap key i)).isOccupied = false) ∧
      ∀ i' < i, ¬(i' < lowBit cap ∧ (slots (probeAt keys cap key i')).isOccupied = false))
  have hbefore : ∀ i' < i, (slots (probeAt keys cap key i')).isOccupied = true := fun i' hi' => by
    by_contra hocc
    exact hmin i' hi' ⟨by omega, by simpa using hocc⟩
  have hloop : ∀ n j, j ≤ i → i - j < n → freeSlot cap slots n (probeAt keys cap key j) = some (probeAt keys cap key i) := by
    intro n
    induction n with
    | zero => intro j _ hn; omega
    | succ n ih =>
      intro j hj hn
      rw [freeSlot]
      obtain rfl | hlt := hj.eq_or_lt
      · rw [hfree, if_neg nofun]
      · rw [hbefore j hlt, if_pos rfl, probeAt_succ hcap (by omega)]
        exact ih (j + 1) hlt (by omega)
  have hle := lowBit_le hcap
  refine ⟨i, hi, ?_, hfree, hbefore⟩
  rw [← probeAt_zero hcap]
  exact hloop cap 0 (Nat.zero_le _) (by omega)

theorem freeSlot_none (hcap : 0 < cap) (hload : lowBit cap ≤ (load cap slots (block keys cap key)).length) (n : ℕ) :
    freeSlot cap slots n (keys.index cap key) = none := by
  have hpos := lowBit_pos cap
  have hocc : ∀ i ≤ lowBit cap, (slots (probeAt keys cap key i)).isOccupied = true := fun i hi => by
    by_contra hfree
    refine absurd (load_lt_iff.2 ⟨_, Nat.mod_lt (keys.index cap key % lowBit cap + i) hpos, ?_⟩) (Nat.not_lt.2 hload)
    rw [← probeAt_block hcap hi]
    simpa using hfree
  have hback : probeAt keys cap key (lowBit cap) = probeAt keys cap key 0 := by
    rw [probeAt_block hcap le_rfl, probeAt_block hcap (Nat.zero_le _), Nat.add_mod_right, Nat.add_zero]
  have hloop : ∀ n i, i < lowBit cap → freeSlot cap slots n (probeAt keys cap key i) = none := by
    intro n
    induction n with
    | zero => exact fun _ _ => rfl
    | succ n ih =>
      intro i hi
      rw [freeSlot, hocc i hi.le, if_pos rfl, probeAt_succ hcap hi]
      obtain hlt | heq := Nat.lt_or_eq_of_le (Nat.succ_le_of_lt hi)
      · exact ih _ hlt
      · rw [show i + 1 = lowBit cap from heq, hback]
        exact ih 0 hpos
  rw [← probeAt_zero hcap]
  exact hloop n 0 hpos

/-- The new table, when the entries `es` are in it. -/
structure Moved (keys : Keys K) (cap : ℕ) (slots : ℕ → Slot K V) (es : List (K × V)) : Prop where
  entries : ((List.range cap).flatMap fun i => (slots i).entry).Perm es
  reached : ∀ j k v, slots j = .occupied k v → Reached keys cap slots k j
  clear : ∀ j, (slots j).isEmpty = !(slots j).isOccupied
  load : ∀ b, (load cap slots b).length = es.countP fun e => block keys cap e.1 = b

theorem moved_nil : Moved keys cap (fun _ => (.empty : Slot K V)) [] where
  entries := by simp [Slot.entry]
  reached := nofun
  clear _ := rfl
  load b := by simp [FlatMap.load, Slot.entry]

theorem moved_rehash (hcap : 0 < cap) {es : List (K × V)} (h : Moved keys cap slots es)
    (hroom : es.countP (fun e' => block keys cap e'.1 = block keys cap e.1) < lowBit cap) :
    ∃ slots', rehash keys cap slots e = some slots' ∧ Moved keys cap slots' (e :: es) := by
  rw [← h.load] at hroom
  obtain ⟨i, hi, hfree, hocc, hbefore⟩ := freeSlot_some hcap hroom
  have hnil : (slots (probeAt keys cap e.1 i)).entry = [] := by
    rw [← List.length_eq_zero_iff, length_entry, hocc]
    rfl
  rw [rehash, hfree]
  refine ⟨Function.update slots (probeAt keys cap e.1 i) (.occupied e.1 e.2), rfl, ?_, reached_occupied h.reached ⟨i, ?_, rfl, fun i' hi' => ?_⟩, fun j => ?_, fun b => ?_⟩
  · obtain ⟨a, b, hab, hnew⟩ := entries_split slots (probeAt_lt keys hcap e.1 i)
    have hentries := h.entries
    rw [hab, hnil, List.append_nil] at hentries
    rw [hnew]
    refine List.Perm.trans ?_ (hentries.cons e)
    rw [List.append_assoc]
    exact List.perm_middle
  · have := lowBit_le hcap
    omega
  · rw [h.clear, hbefore i' hi']
    rfl
  · by_cases hj : j = probeAt keys cap e.1 i
    · rw [hj, Function.update_self]
      rfl
    · rw [Function.update_of_ne hj]
      exact h.clear j
  · -- The slot is one of the block of the entry.
    have hpos := lowBit_pos cap
    have hslot : probeAt keys cap e.1 i = lowBit cap * block keys cap e.1 +
        (keys.index cap e.1 % lowBit cap + i) % lowBit cap := probeAt_block hcap hi.le
    have hlt : (keys.index cap e.1 % lowBit cap + i) % lowBit cap < lowBit cap := Nat.mod_lt _ hpos
    rw [List.countP_cons, ← h.load]
    by_cases hb : block keys cap e.1 = b
    · have hupd : (fun o => Function.update slots (probeAt keys cap e.1 i) (.occupied e.1 e.2) (lowBit cap * b + o)) =
          Function.update (fun o => slots (lowBit cap * b + o)) ((keys.index cap e.1 % lowBit cap + i) % lowBit cap)
            (.occupied e.1 e.2) := by
        funext o
        rw [hslot, hb]
        by_cases ho : o = (keys.index cap e.1 % lowBit cap + i) % lowBit cap
        · rw [ho, Function.update_self, Function.update_self]
        · rw [Function.update_of_ne ho, Function.update_of_ne (by omega)]
      obtain ⟨x, y, hxy, hnew⟩ := entries_split (fun o => slots (lowBit cap * b + o)) hlt
      have hold : FlatMap.load cap slots b = x ++ y := by
        rw [← hb, ← hslot, hb, hnil, List.append_nil] at hxy
        exact hxy
      have hafter := hnew (.occupied e.1 e.2)
      rw [← hupd] at hafter
      rw [FlatMap.load, hafter, hold, if_pos (by simpa using hb)]
      simp [Slot.entry]
      omega
    · rw [if_neg (by simpa using hb), Nat.add_zero]
      congr 1
      refine List.flatMap_congr fun o ho => ?_
      have ho := List.mem_range.1 ho
      rw [Function.update_of_ne]
      intro he
      rw [hslot] at he
      apply hb
      have h1 : (lowBit cap * b + o) / lowBit cap = b := by
        rw [Nat.mul_add_div hpos, Nat.div_eq_of_lt ho, Nat.add_zero]
      have h2 : (lowBit cap * block keys cap e.1 + (keys.index cap e.1 % lowBit cap + i) % lowBit cap) / lowBit cap =
          block keys cap e.1 := by
        rw [Nat.mul_add_div hpos, Nat.div_eq_of_lt hlt, Nat.add_zero]
      rw [← h1, ← h2, he]

end Move

theorem moved_foldlM (hcap : 0 < cap) (es : List (K × V)) {done : List (K × V)}
    (h : Moved keys cap slots done) (hroom : ∀ e ∈ es,
      (es ++ done).countP (fun e' => block keys cap e'.1 = block keys cap e.1) ≤ lowBit cap) :
    ∃ slots', es.foldlM (rehash keys cap) slots = some slots' ∧ Moved keys cap slots' (es.reverse ++ done) := by
  induction es generalizing done slots with
  | nil => exact ⟨slots, rfl, h⟩
  | cons e es ih =>
    have hfirst := hroom e List.mem_cons_self
    rw [List.cons_append, List.countP_cons_of_pos (by simp), List.countP_append] at hfirst
    obtain ⟨slots₁, hslots, h₁⟩ := moved_rehash hcap h (e := e) (by omega)
    obtain ⟨slots₂, hfold, h₂⟩ := ih h₁ fun e' he' => by
      have hperm : (es ++ e :: done).Perm (e :: es ++ done) := List.perm_middle
      rw [hperm.countP_eq]
      exact hroom e' (List.mem_cons_of_mem _ he')
    refine ⟨slots₂, ?_, ?_⟩
    · rw [List.foldlM_cons, hslots]
      exact hfold
    · rw [List.reverse_cons, List.append_assoc]
      exact h₂

theorem foldlM_flatMap {α β σ : Type} (g : σ → β → Option σ) (f : α → List β) (l : List α) (s : σ) :
    l.foldlM (fun s a => (f a).foldlM g s) s = (l.flatMap f).foldlM g s := by
  induction l generalizing s with
  | nil => rfl
  | cons a l ih =>
    rw [List.foldlM_cons, List.flatMap_cons, List.foldlM_append]
    exact congrArg _ (funext ih)

theorem rep_resize (h : Rep keys f m) (hroom : ∀ e ∈ f.entries,
    f.entries.countP (fun e' => block keys (f.cap * 2) e'.1 = block keys (f.cap * 2) e.1) ≤ lowBit (f.cap * 2)) :
    ∃ g, f.resize keys = some g ∧ Rep keys g m ∧ g.cap = f.cap * 2 ∧ g.entries.length = f.entries.length ∧
      ∀ j, (g.slots j).isEmpty = !(g.slots j).isOccupied := by
  have hcap : 0 < f.cap * 2 := by
    have := h.cap
    omega
  obtain ⟨slots, hfold, hmoved⟩ := moved_foldlM hcap f.entries moved_nil (by simpa using hroom)
  have hperm := hmoved.entries
  rw [List.append_nil] at hperm
  have hperm := hperm.trans f.entries.reverse_perm
  refine ⟨{ f with slots, cap := f.cap * 2 }, ?_, ⟨hcap, hmoved.reached, h.size.trans hperm.length_eq.symm,
    h.lists.perm keys.equiv hperm.symm⟩, rfl, hperm.length_eq, hmoved.clear⟩
  rw [resize, foldlM_flatMap]
  rw [entries] at hfold
  rw [hfold]
  rfl

/-! ### A slot for every key -/

theorem length_entries (f : FlatMap K V) :
    f.entries.length = ((Finset.range f.cap).filter fun j => (f.slots j).isOccupied = true).card :=
  length_flatMap_eq_card _ (fun j => (f.slots j).isOccupied) (fun _ => length_entry _) _

theorem Rep.length_le (h : Rep keys f m) : f.entries.length ≤ (submasks f.cap).card := by
  rw [length_entries]
  refine Finset.card_le_card fun j hj => ?_
  rw [mem_submasks h.cap]
  cases hs : f.slots j with
  | occupied k v =>
    obtain ⟨i, -, rfl, -⟩ := h.reached j k v hs
    exact probeAt_and ..
  | empty | tombstone =>
    rw [Finset.mem_filter, hs] at hj
    exact absurd hj.2 nofun

/-- In a table that has just grown the probe of no key ends at the end of the loop: all the slots that are probed would be
occupied, and there are at least twice as many as entries. -/
theorem probe_of_grown {g : FlatMap K V} (h : Rep keys f m) (hg : Rep keys g m) (hcap : g.cap = f.cap * 2)
    (hlen : g.entries.length = f.entries.length) (hclear : ∀ j, (g.slots j).isEmpty = !(g.slots j).isOccupied) (key : K) :
    g.probe keys key g.cap 0 none ≠ .full := by
  intro hfull
  have hspec := probe_start keys g key
  rw [hfull] at hspec
  have hall : submasks g.cap ⊆ (Finset.range g.cap).filter fun j => (g.slots j).isOccupied = true := by
    intro s hs
    rw [mem_submasks hg.cap] at hs
    obtain ⟨i, hi, hprobe⟩ := exists_probe hg.cap (x := keys.index g.cap key)
      (by rw [Keys.index, Nat.and_assoc, Nat.and_self]) hs
    obtain rfl : probeAt keys g.cap key i = s := hprobe
    have hne := (hspec i hi).not_empty
    rw [hclear] at hne
    rw [Finset.mem_filter, Finset.mem_range]
    exact ⟨probeAt_lt _ hg.cap .., by simpa using hne⟩
  have hcard := Finset.card_le_card hall
  rw [← length_entries, hlen, hcap] at hcard
  have hdouble := card_submasks_double h.cap
  have hle := h.length_le
  have hzero : 0 ∈ submasks f.cap := (mem_submasks h.cap).2 (Nat.zero_and _)
  have hpos := Finset.card_pos.2 ⟨0, hzero⟩
  omega

theorem rep_set (h : Rep keys f m) (hroomy : f.Roomy keys key) (val : V) :
    ∃ g, f.set keys key val = some (.ok, g) ∧ Rep keys g (assign keys.eq m key val) := by
  rw [Roomy] at hroomy
  rw [set]
  split at hroomy
  · next hloaded =>
    obtain ⟨g, hg, hrep, hcap, hlen, hclear⟩ := rep_resize h hroomy
    obtain ⟨hok, hput⟩ := rep_put hrep (probe_of_grown h hrep hcap hlen hclear key) val
    rw [if_pos hloaded, hg]
    exact ⟨_, congrArg some (Prod.ext hok rfl), hput⟩
  · next hloaded =>
    have hprobe : f.probe keys key f.cap 0 none ≠ .full := by
      intro hfull
      have hspec := probe_start keys f key
      rw [hfull] at hspec
      obtain ⟨e, he, hk⟩ | ⟨i, hi, hempty⟩ := hroomy
      · rw [Missed.absent h (.inl hspec) e he] at hk
        cases hk
      · rw [(hspec i hi).not_empty] at hempty
        cases hempty
    obtain ⟨hok, hput⟩ := rep_put h hprobe val
    rw [if_neg hloaded]
    exact ⟨_, congrArg some (Prod.ext hok rfl), hput⟩

/-! ### Tables that are not roomy -/

theorem moved_of_foldlM (hcap : 0 < cap) (es : List (K × V)) {done : List (K × V)}
    {slots' : ℕ → Slot K V} (h : Moved keys cap slots done) (hfold : es.foldlM (rehash keys cap) slots = some slots') :
    Moved keys cap slots' (es.reverse ++ done) := by
  induction es generalizing done slots with
  | nil =>
    cases hfold
    exact h
  | cons e es ih =>
    rw [List.foldlM_cons] at hfold
    obtain ⟨slots₁, hslots, hfold⟩ := Option.bind_eq_some_iff.1 hfold
    have hroom : done.countP (fun e' => block keys cap e'.1 = block keys cap e.1) < lowBit cap := by
      by_contra hno
      rw [← h.load, Nat.not_lt] at hno
      rw [rehash, freeSlot_none hcap hno] at hslots
      cases hslots
    obtain ⟨slots₂, hslots', h₂⟩ := moved_rehash hcap h hroom
    obtain rfl := Option.some.inj (hslots.symm.trans hslots')
    rw [List.reverse_cons, List.append_assoc]
    exact ih h₂ hfold

end Libx.Map.FlatMap
