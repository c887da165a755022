import Libx.Map.Chain

/-!
# Libx.Map.Hash — separate chaining

map_hash.c.  A bucket is the chain it points to, and the cells come from a pool that has memory.
-/

namespace Libx.Map

open Libx.Core (Lists assign unassign flatMap_update)
open List Function

variable {K V : Type}

/-- `calloc(1, header + cap * element)` is for as much as that. -/
def Fits (header element cap : ℕ) : Prop := header + cap * element < 2 ^ 64

instance (header element cap : ℕ) : Decidable (Fits header element cap) := inferInstanceAs (Decidable (_ < _))

/-- `xMapHash`. -/
structure HashMap (K V : Type) where
  buckets : ℕ → List (K × V) := fun _ => []
  size : ℕ := 0
  cap : ℕ

namespace HashMap

variable (keys : Keys K)

/-- `xMapHashCreate`; where the number of bytes wraps around there are fewer buckets than `cap`. -/
def create (cap : ℕ) : Option (HashMap K V) := if Fits 56 8 cap then some { cap } else none

/-- `bucket_idx`. -/
def bucketIdx (h : HashMap K V) (key : K) : ℕ := keys.index h.cap key

/-- An entry is put before those of its new bucket. -/
def relink (cap : ℕ) (buckets : ℕ → List (K × V)) (e : K × V) : ℕ → List (K × V) :=
  Function.update buckets (keys.index cap e.1) (e :: buckets (keys.index cap e.1))

/-- `hash_resize`. -/
def resize (h : HashMap K V) : HashMap K V :=
  { h with
    buckets := (List.range h.cap).foldl (fun bs i => (h.buckets i).foldl (relink keys (h.cap * 2)) bs) fun _ => []
    cap := h.cap * 2 }

/-- `hash_set`, a new entry: the load is looked at before. -/
def insert (h : HashMap K V) (key : K) (val : V) : HashMap K V :=
  let h := if h.size + 1 > h.cap * 3 / 4 then h.resize keys else h
  { h with
    buckets := Function.update h.buckets (h.bucketIdx keys key) ((key, val) :: h.buckets (h.bucketIdx keys key))
    size := h.size + 1 }

/-- `hash_set`. -/
def set (h : HashMap K V) (key : K) (val : V) : SetError × HashMap K V :=
  match setChain keys.eq key val (h.buckets (h.bucketIdx keys key)) with
  | some chain => (.ok, { h with buckets := Function.update h.buckets (h.bucketIdx keys key) chain })
  | none => (.ok, h.insert keys key val)

/-- `hash_get`. -/
def get [Zero V] (h : HashMap K V) (key : K) : V :=
  (getChain keys.eq key (h.buckets (h.bucketIdx keys key))).getD 0

/-- `hash_del`. -/
def del [Zero V] (h : HashMap K V) (key : K) : V × HashMap K V :=
  match delChain keys.eq key (h.buckets (h.bucketIdx keys key)) with
  | some (val, chain) =>
    (val, { h with buckets := Function.update h.buckets (h.bucketIdx keys key) chain, size := h.size - 1 })
  | none => (0, h)

/-- `hash_len`. -/
def len (h : HashMap K V) : ℕ := h.size

/-- `hash_iterate`, from one bucket on. -/
def iterateFrom (h : HashMap K V) (fn : List (K × V) → Bool) (done : List (K × V)) : List ℕ → List (K × V)
  | [] => done
  | i :: is => match visit fn done (h.buckets i) with
    | (done, true) => iterateFrom h fn done is
    | (done, false) => done

/-- `hash_iterate`. -/
def iterate (h : HashMap K V) (fn : List (K × V) → Bool) : List (K × V) := h.iterateFrom fn [] (List.range h.cap)

/-! ### What a table stands for -/

def entries (h : HashMap K V) : List (K × V) := (List.range h.cap).flatMap h.buckets

/-- Each entry is in the bucket of its hash, and the entries are those of a map. -/
structure Rep (h : HashMap K V) (m : K → Option V) : Prop where
  cap : 0 < h.cap
  placed : ∀ i, ∀ e ∈ h.buckets i, keys.index h.cap e.1 = i
  size : h.size = h.entries.length
  lists : Lists keys.eq h.entries m

variable {keys} {h : HashMap K V} {m : K → Option V}

theorem Rep.split (h' : Rep keys h m) (key : K) : ∃ a b, h.entries = a ++ h.buckets (h.bucketIdx keys key) ++ b ∧
    ∀ chain, (List.range h.cap).flatMap (Function.update h.buckets (h.bucketIdx keys key) chain) = a ++ chain ++ b := by
  obtain ⟨a, b, hab⟩ := flatMap_update h.buckets (Keys.index_lt keys key h'.cap)
  refine ⟨a, b, ?_, hab⟩
  have hself := hab (h.buckets (h.bucketIdx keys key))
  rw [bucketIdx, update_eq_self] at hself
  exact hself

theorem Rep.absent (h' : Rep keys h m) {key : K} (hno : ∀ e ∈ h.buckets (h.bucketIdx keys key), keys.eq e.1 key = false) :
    ∀ e ∈ h.entries, keys.eq e.1 key = false := by
  intro e he
  obtain ⟨i, -, he⟩ := mem_flatMap.1 he
  by_contra hk
  have hk : keys.eq e.1 key = true := by simpa using hk
  have hi := h'.placed i e he
  rw [Keys.index_congr hk] at hi
  rw [← hi] at he
  rw [hno e he] at hk
  cases hk

theorem Rep.replace (h' : Rep keys h m) (key : K) {chain : List (K × V)}
    (hchain : ∀ e ∈ chain, keys.index h.cap e.1 = h.bucketIdx keys key) :
    ∀ i, ∀ e ∈ Function.update h.buckets (h.bucketIdx keys key) chain i, keys.index h.cap e.1 = i := by
  intro i e he
  by_cases hi : i = h.bucketIdx keys key
  · rw [hi, update_self] at he
    rw [hi]
    exact hchain e he
  · rw [update_of_ne hi] at he
    exact h'.placed i e he

theorem rep_create {cap : ℕ} (hcap : 0 < cap) : Rep keys ({ cap } : HashMap K V) fun _ => none := by
  have hnil : ({ cap } : HashMap K V).entries = [] := flatMap_eq_nil_iff.2 fun _ _ => rfl
  exact ⟨hcap, nofun, by rw [hnil]; rfl, by rw [hnil]; exact Lists.nil⟩

/-! ### The load -/

theorem relink_foldl {cap : ℕ} (hcap : 0 < cap) (es : List (K × V)) (bs : ℕ → List (K × V))
    (hbs : ∀ i, ∀ e ∈ bs i, keys.index cap e.1 = i) :
    (∀ i, ∀ e ∈ es.foldl (relink keys cap) bs i, keys.index cap e.1 = i) ∧
      ((List.range cap).flatMap (es.foldl (relink keys cap) bs)).Perm (es ++ (List.range cap).flatMap bs) := by
  induction es generalizing bs with
  | nil => exact ⟨hbs, .refl _⟩
  | cons e es ih =>
    have hplaced : ∀ i, ∀ e' ∈ relink keys cap bs e i, keys.index cap e'.1 = i := by
      intro i e' he'
      by_cases hi : i = keys.index cap e.1
      · rw [relink, hi, update_self] at he'
        obtain rfl | he' := mem_cons.1 he'
        · exact hi.symm
        · rw [hi]
          exact hbs _ e' he'
      · rw [relink, update_of_ne hi] at he'
        exact hbs i e' he'
    obtain ⟨h1, h2⟩ := ih (relink keys cap bs e) hplaced
    refine ⟨h1, h2.trans ?_⟩
    obtain ⟨a, b, hab⟩ := flatMap_update bs (Keys.index_lt keys e.1 hcap)
    have hself := hab (bs (keys.index cap e.1))
    rw [update_eq_self] at hself
    rw [relink, hab, hself, append_assoc, append_assoc, cons_append]
    have hmid : (a ++ e :: (bs (keys.index cap e.1) ++ b)).Perm (e :: (a ++ (bs (keys.index cap e.1) ++ b))) :=
      perm_middle
    exact (hmid.append_left es).trans perm_middle

theorem rep_resize (h' : Rep keys h m) : Rep keys (h.resize keys) m ∧ (h.resize keys).size = h.size := by
  have hfold : (List.range h.cap).foldl (fun bs i => (h.buckets i).foldl (relink keys (h.cap * 2)) bs) (fun _ => []) =
      h.entries.foldl (relink keys (h.cap * 2)) fun _ => [] := by
    rw [entries, foldl_flatMap]
  have hcap : 0 < h.cap * 2 := by
    have := h'.cap
    omega
  obtain ⟨hplaced, hperm⟩ := relink_foldl hcap h.entries (fun _ => []) nofun
  have hnil : (List.range (h.cap * 2)).flatMap (fun _ => ([] : List (K × V))) = [] :=
    flatMap_eq_nil_iff.2 fun _ _ => rfl
  rw [hnil, List.append_nil, ← hfold] at hperm
  rw [← hfold] at hplaced
  exact ⟨⟨hcap, hplaced, h'.size.trans hperm.length_eq.symm, h'.lists.perm keys.equiv hperm.symm⟩, rfl⟩

/-! ### The operations -/

theorem rep_insert (h' : Rep keys h m) {key : K} (hno : ∀ e ∈ h.entries, keys.eq e.1 key = false) (val : V) :
    Rep keys (h.insert keys key val) (assign keys.eq m key val) := by
  have hgrown : ∃ g, (if h.size + 1 > h.cap * 3 / 4 then h.resize keys else h) = g ∧ Rep keys g m ∧
      ∀ e ∈ g.entries, keys.eq e.1 key = false := by
    split
    · refine ⟨_, rfl, (rep_resize h').1, fun e he => ?_⟩
      by_contra hk
      have hget := (rep_resize h').1.lists.get_of_mem he (by simpa using hk)
      rw [h'.lists.get_none hno] at hget
      cases hget
    · exact ⟨h, rfl, h', hno⟩
  obtain ⟨g, hg, hrep, hno⟩ := hgrown
  obtain ⟨a, b, hab, hnew⟩ := hrep.split key
  have hperm : (a ++ ((key, val) :: g.buckets (g.bucketIdx keys key)) ++ b).Perm ((key, val) :: g.entries) := by
    rw [hab, append_assoc, append_assoc]
    exact perm_middle
  rw [insert, hg]
  refine ⟨hrep.cap, hrep.replace key (forall_mem_cons.2 ⟨rfl, hrep.placed _⟩), ?_, ?_⟩
  · rw [entries, hnew, hperm.length_eq, length_cons]
    exact congrArg (· + 1) hrep.size
  · rw [entries, hnew]
    exact (hrep.lists.cons keys.equiv hno val).perm keys.equiv hperm.symm

theorem rep_set (h' : Rep keys h m) (key : K) (val : V) :
    (h.set keys key val).1 = .ok ∧ Rep keys (h.set keys key val).2 (assign keys.eq m key val) := by
  obtain ⟨a, b, hab, hnew⟩ := h'.split key
  rw [set]
  obtain hno | ⟨c, k, v, d, hc, hk, hfirst⟩ := chain_cases keys.eq key (h.buckets (h.bucketIdx keys key))
  · rw [(chain_none hno val).2.1]
    exact ⟨rfl, rep_insert h' (h'.absent hno) val⟩
  · have hplaced := h'.placed (h.bucketIdx keys key)
    rw [hc] at hab hplaced ⊢
    rw [setChain_eq hfirst hk]
    have hentries : h.entries = (a ++ c) ++ (k, v) :: (d ++ b) := by
      rw [hab]
      simp
    have hafter : (List.range h.cap).flatMap (Function.update h.buckets (h.bucketIdx keys key) (c ++ (k, val) :: d)) =
        (a ++ c) ++ (k, val) :: (d ++ b) := by
      rw [hnew]
      simp
    refine ⟨rfl, h'.cap, h'.replace key fun e he => ?_, ?_, ?_⟩
    · simp only [mem_append, mem_cons] at he hplaced
      obtain he | rfl | he := he
      · exact hplaced e (.inl he)
      · exact hplaced (k, v) (.inr (.inl rfl))
      · exact hplaced e (.inr (.inr he))
    · rw [entries, hafter, h'.size, hentries]
      simp
    · rw [entries, hafter]
      exact (hentries ▸ h'.lists).change keys.equiv hk val

theorem rep_get [Zero V] (h' : Rep keys h m) (key : K) : h.get keys key = (m key).getD 0 := by
  obtain ⟨a, b, hab, -⟩ := h'.split key
  rw [get]
  obtain hno | ⟨c, k, v, d, hc, hk, hfirst⟩ := chain_cases keys.eq key (h.buckets (h.bucketIdx keys key))
  · rw [(chain_none hno 0).1, h'.lists.get_none (h'.absent hno)]
  · have hmem : (k, v) ∈ h.entries := by
      rw [hab, hc]
      simp
    rw [hc, getChain_eq hfirst hk, h'.lists.get_of_mem hmem hk]

theorem rep_del [Zero V] (h' : Rep keys h m) (key : K) :
    (h.del keys key).1 = (m key).getD 0 ∧ Rep keys (h.del keys key).2 (unassign keys.eq m key) := by
  obtain ⟨a, b, hab, hnew⟩ := h'.split key
  rw [del]
  obtain hno | ⟨c, k, v, d, hc, hk, hfirst⟩ := chain_cases keys.eq key (h.buckets (h.bucketIdx keys key))
  · rw [(chain_none hno 0).2.2, h'.lists.get_none (h'.absent hno),
      h'.lists.unassign_eq keys.equiv (h'.lists.get_none (h'.absent hno))]
    exact ⟨rfl, h'⟩
  · have hplaced := h'.placed (h.bucketIdx keys key)
    rw [hc] at hab hplaced ⊢
    rw [delChain_eq hfirst hk]
    have hentries : h.entries = (a ++ c) ++ (k, v) :: (d ++ b) := by
      rw [hab]
      simp
    have hafter : (List.range h.cap).flatMap (Function.update h.buckets (h.bucketIdx keys key) (c ++ d)) =
        (a ++ c) ++ (d ++ b) := by
      rw [hnew]
      simp
    have hmem : (k, v) ∈ h.entries := by
      rw [hentries]
      simp
    refine ⟨by rw [h'.lists.get_of_mem hmem hk]; rfl, h'.cap, h'.replace key fun e he => ?_, ?_, ?_⟩
    · rw [mem_append] at he
      refine hplaced e ?_
      rw [mem_append]
      exact he.imp_right (mem_cons_of_mem _)
    · rw [entries, hafter, h'.size, hentries]
      simp
      omega
    · rw [entries, hafter]
      exact (hentries ▸ h'.lists).remove keys.equiv hk

theorem iterateFrom_eq (h : HashMap K V) (fn : List (K × V) → Bool) (done : List (K × V)) (is : List ℕ) :
    h.iterateFrom fn done is = (visit fn done (is.flatMap h.buckets)).1 := by
  induction is generalizing done with
  | nil => rfl
  | cons i is ih =>
    rw [iterateFrom, flatMap_cons, visit_append]
    split
    · next d hd =>
      rw [hd, if_pos rfl]
      exact ih d
    · next d hd => rw [hd, if_neg nofun]

theorem iterate_eq (h : HashMap K V) (fn : List (K × V) → Bool) : h.iterate fn = (visit fn [] h.entries).1 :=
  iterateFrom_eq h fn [] _

end HashMap

end Libx.Map
