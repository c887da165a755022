import Libx.Map.TreeBalance

/-!
# Libx.Map.TreeExact — what a tree stands for
-/

namespace Libx.Map

open Libx.Core (Lists assign unassign)
open TreeNode List

variable {K V : Type}

def Sorted (items : List (TreeItem K V)) : Prop := items.Pairwise fun y z => y.hash < z.hash

/-- **The search**: it ends at the node with the hash, or at the place for it. -/
theorem findNode_spec (h : ℕ) (t : TreeNode K V) (up : List (Parent K V)) (hsorted : Sorted t.items)
    (hbefore : ∀ z ∈ before up, z.hash < h) (hafter : ∀ z ∈ after up, h < z.hash) :
    match findNode h t up with
    | (.node _ _ x _, _) => x.hash = h
    | (.null, up') => (∀ z ∈ before up', z.hash < h) ∧ ∀ z ∈ after up', h < z.hash := by
  fun_induction findNode h t up with
  | case1 => exact ⟨hbefore, hafter⟩
  | case2 c l x r up hlt ih =>
    rw [Sorted, items, pairwise_append, pairwise_cons] at hsorted
    obtain ⟨hl, ⟨hxr, -⟩, -⟩ := hsorted
    refine ih hl (by rwa [before, List.append_nil]) fun z hz => ?_
    rw [after, cons_append, mem_cons, mem_append] at hz
    obtain rfl | hz | hz := hz
    · exact hlt
    · exact Nat.lt_trans hlt (hxr z hz)
    · exact hafter z hz
  | case3 c l x r up _ hlt ih =>
    rw [Sorted, items, pairwise_append, pairwise_cons] at hsorted
    obtain ⟨-, ⟨-, hr⟩, hlx⟩ := hsorted
    refine ih hr (fun z hz => ?_) (by rwa [after, nil_append])
    rw [before, mem_append, mem_append, mem_singleton] at hz
    obtain hz | hz | rfl := hz
    · exact hbefore z hz
    · exact Nat.lt_trans (hlx z hz x mem_cons_self) hlt
    · exact hlt
  | case4 c l x r up h1 h2 => exact Nat.le_antisymm (Nat.not_lt.1 h2) (Nat.not_lt.1 h1) |>.symm ▸ rfl

variable {up : List (Parent K V)}

theorem placed_plug {t : TreeNode K V} (h : Placed t up) :
    (∃ m, Rb m (plug up t)) ∧ (plug up t).isRed = false := by
  obtain ⟨n, hrb, hup, hred⟩ := h
  refine ⟨hrb.plug hup hred, ?_⟩
  cases up with
  | nil =>
    by_contra hr
    obtain ⟨g, up', he, -⟩ := hred (by simpa [plug] using hr)
    cases he
  | cons p up => exact hup.plug_isRed (List.cons_ne_nil p up) _

variable {l r : TreeNode K V} {x : TreeItem K V}

theorem placed_item {c : Color}
    (h : Placed (.node c l x r) up) (x' : TreeItem K V) : Placed (.node c l x' r) up := by
  obtain ⟨n, hrb, hup, hred⟩ := h
  refine ⟨n, ?_, hup, fun hr => hred ?_⟩
  · cases hrb with
    | red h1 h2 h3 h4 => exact .red h1 h2 h3 h4
    | black h1 h2 => exact .black h1 h2
  · cases c
    · cases hr
    · rfl

namespace TreeMap

def entries (t : TreeMap K V) : List (K × V) := t.root.items.flatMap TreeItem.entries

structure Rep (keys : Keys K) (t : TreeMap K V) (m : K → Option V) : Prop where
  balanced : ∃ n, Rb n t.root
  root : t.root.isRed = false
  sorted : Sorted t.root.items
  hashes : ∀ z ∈ t.root.items, ∀ e ∈ z.entries, keys.hash e.1 = z.hash
  size : t.size = t.entries.length
  lists : Lists keys.eq t.entries m

variable {keys : Keys K} {t : TreeMap K V} {m : K → Option V} {key : K} {val : V}

theorem rep_create : Rep keys (create : TreeMap K V) fun _ => none :=
  ⟨⟨0, .null⟩, rfl, .nil, nofun, rfl, Lists.nil⟩

theorem Rep.find (h : Rep keys t m) (key : K) :
    (∃ up, findNode (keys.hash key) t.root [] = (.null, up) ∧ Placed (.null : TreeNode K V) up ∧
      t.root.items = before up ++ after up ∧ (∀ z ∈ before up, z.hash < keys.hash key) ∧
      ∀ z ∈ after up, keys.hash key < z.hash) ∨
    ∃ c l x r up, findNode (keys.hash key) t.root [] = (.node c l x r, up) ∧ Placed (.node c l x r) up ∧
      t.root.items = (before up ++ l.items) ++ x :: (r.items ++ after up) ∧ x.hash = keys.hash key := by
  obtain ⟨n, hn⟩ := h.balanced
  have hroot : Placed t.root [] := ⟨n, hn, .root, fun hr => by
    rw [h.root] at hr
    cases hr⟩
  obtain ⟨hplaced, hplug⟩ := placed_findNode (keys.hash key) t.root [] hroot
  have hspec := findNode_spec (keys.hash key) t.root [] h.sorted nofun nofun
  have hitems := congrArg TreeNode.items hplug
  rw [items_plug] at hitems
  cases hfind : findNode (keys.hash key) t.root [] with
  | mk s up =>
    rw [hfind] at hplaced hspec hitems
    cases s with
    | null => exact .inl ⟨up, rfl, hplaced, by rw [plug] at hitems; rw [← hitems, items, List.append_nil], hspec.1, hspec.2⟩
    | node c l x r =>
      refine .inr ⟨c, l, x, r, up, rfl, hplaced, ?_, hspec⟩
      rw [plug] at hitems
      rw [← hitems, items]
      simp

theorem Rep.absent (h : Rep keys t m) (hno : ∀ z ∈ t.root.items, z.hash ≠ keys.hash key) :
    ∀ e ∈ t.entries, keys.eq e.1 key = false := by
  intro e he
  obtain ⟨z, hz, he⟩ := mem_flatMap.1 he
  by_contra hk
  exact hno z hz ((h.hashes z hz e he).symm.trans (keys.compat _ _ (by simpa using hk)))

theorem Rep.absent_node (h : Rep keys t m) {a b : List (TreeItem K V)} (hitems : t.root.items = a ++ x :: b)
    (hx : x.hash = keys.hash key) (hno : ∀ e ∈ x.entries, keys.eq e.1 key = false) :
    ∀ e ∈ t.entries, keys.eq e.1 key = false := by
  have hsorted := h.sorted
  rw [hitems, Sorted, pairwise_append, pairwise_cons] at hsorted
  obtain ⟨-, ⟨hxb, -⟩, hax⟩ := hsorted
  intro e he
  obtain ⟨z, hz, he⟩ := mem_flatMap.1 he
  have hother : z.hash ≠ keys.hash key → keys.eq e.1 key = false := fun hne => by
    by_contra hk
    exact hne ((h.hashes z hz e he).symm.trans (keys.compat _ _ (by simpa using hk)))
  rw [hitems, mem_append, mem_cons] at hz
  obtain hz | rfl | hz := hz
  · have := hax z hz x mem_cons_self
    exact hother (by omega)
  · exact hno e he
  · have := hxb z hz
    exact hother (by omega)

theorem rep_change (h : Rep keys t m) {c : Color}
    (hplaced : Placed (.node c l x r) up) (hitems : t.root.items = (before up ++ l.items) ++ x :: (r.items ++ after up))
    (x' : TreeItem K V) (size' : ℕ) {m' : K → Option V} (hhash : x'.hash = x.hash)
    (hhashes : ∀ e ∈ x'.entries, keys.hash e.1 = x.hash) (hsize : size' + x.entries.length = t.size + x'.entries.length)
    (hlists : ∀ a b, t.entries = a ++ x.entries ++ b → Lists keys.eq (a ++ x'.entries ++ b) m') :
    Rep keys { root := plug up (.node c l x' r), size := size' } m' := by
  have hitems' : (plug up (.node c l x' r)).items = (before up ++ l.items) ++ x' :: (r.items ++ after up) := by
    rw [items_plug, items]
    simp
  obtain ⟨hrb, hroot⟩ := placed_plug (placed_item hplaced x')
  have hsorted := h.sorted
  have hold := h.hashes
  have hcount := h.size
  have hentries : t.entries = (before up ++ l.items).flatMap TreeItem.entries ++ x.entries ++
      (r.items ++ after up).flatMap TreeItem.entries := by
    rw [entries, hitems, flatMap_append, flatMap_cons, append_assoc]
  rw [hitems, Sorted, pairwise_append, pairwise_cons] at hsorted
  rw [hitems] at hold
  rw [hentries] at hcount
  refine ⟨hrb, hroot, ?_, fun z hz => ?_, ?_, ?_⟩
  · obtain ⟨h1, ⟨h2, h3⟩, h4⟩ := hsorted
    rw [hitems', Sorted, pairwise_append, pairwise_cons]
    refine ⟨h1, ⟨fun z hz => by rw [hhash]; exact h2 z hz, h3⟩, fun y hy z hz => ?_⟩
    obtain rfl | hz := mem_cons.1 hz
    · rw [hhash]
      exact h4 y hy x mem_cons_self
    · exact h4 y hy z (mem_cons_of_mem _ hz)
  · rw [hitems', mem_append, mem_cons] at hz
    obtain hz | rfl | hz := hz
    · exact hold z (mem_append_left _ hz)
    · rw [hhash]
      exact hhashes
    · exact hold z (mem_append_right _ (mem_cons_of_mem _ hz))
  · rw [entries, hitems', flatMap_append, flatMap_cons]
    simp only [length_append] at hcount ⊢
    omega
  · rw [entries, hitems', flatMap_append, flatMap_cons, ← append_assoc]
    exact hlists _ _ hentries

theorem rep_insert (h : Rep keys t m) (hplaced : Placed (.null : TreeNode K V) up)
    (hitems : t.root.items = before up ++ after up) (hbefore : ∀ z ∈ before up, z.hash < keys.hash key)
    (hafter : ∀ z ∈ after up, keys.hash key < z.hash) (val : V) :
    ∃ root, insertFixup (.node .red .null { hash := keys.hash key, key, val } .null) up = some root ∧
      Rep keys { root, size := t.size + 1 } (assign keys.eq m key val) := by
  obtain ⟨n, hrb, hup, -⟩ := hplaced
  obtain rfl : n = 0 := by
    cases hrb
    rfl
  obtain ⟨root, hroot, hfixed⟩ := insertFixup_spec
    (z := .node .red .null { hash := keys.hash key, key, val } .null) (.red .null .null rfl rfl) rfl hup
  have hno : ∀ e ∈ t.entries, keys.eq e.1 key = false := h.absent fun z hz => by
    rw [hitems, mem_append] at hz
    obtain hz | hz := hz
    · exact Nat.ne_of_lt (hbefore z hz)
    · exact Nat.ne_of_gt (hafter z hz)
  have hnew : root.items = before up ++ { hash := keys.hash key, key, val } :: after up := by
    rw [hfixed.items]
    simp [TreeNode.items]
  have hsorted := h.sorted
  have hold := h.hashes
  rw [hitems] at hold
  rw [hitems, Sorted, pairwise_append] at hsorted
  have hperm : (root.items.flatMap TreeItem.entries).Perm ((key, val) :: t.entries) := by
    rw [hnew, entries, hitems, flatMap_append, flatMap_append, flatMap_cons]
    exact perm_middle
  refine ⟨root, hroot, hfixed.rb, hfixed.root, ?_, fun z hz => ?_, ?_, (h.lists.cons keys.equiv hno val).perm keys.equiv
    hperm.symm⟩
  · rw [hnew, Sorted, pairwise_append, pairwise_cons]
    refine ⟨hsorted.1, ⟨hafter, hsorted.2.1⟩, fun y hy z hz => ?_⟩
    obtain rfl | hz := mem_cons.1 hz
    · exact hbefore y hy
    · exact hsorted.2.2 y hy z hz
  · rw [hnew, mem_append, mem_cons] at hz
    obtain hz | rfl | hz := hz
    · exact hold z (mem_append_left _ hz)
    · intro e he
      rw [mem_singleton.1 he]
    · exact hold z (mem_append_right _ hz)
  · rw [entries, hperm.length_eq, length_cons, h.size]

theorem rep_remove (h : Rep keys t m) {c : Color}
    (hplaced : Placed (.node c l x r) up) (hitems : t.root.items = (before up ++ l.items) ++ x :: (r.items ++ after up))
    (hx : x.overflow = []) (hk : keys.eq x.key key = true) :
    ∃ root, removeNode c l r up = some root ∧ Rep keys { root, size := t.size - 1 } (unassign keys.eq m key) := by
  obtain ⟨root, hroot, hfixed⟩ := removeNode_spec hplaced
  have hnew : root.items = (before up ++ l.items) ++ (r.items ++ after up) := by
    rw [hfixed.items]
    simp
  have hsorted := h.sorted
  have hold := h.hashes
  have hcount := h.size
  have hmap := h.lists
  have hxe : x.entries = [(x.key, x.val)] := by rw [TreeItem.entries, hx]
  rw [hitems] at hold
  rw [hitems, Sorted, pairwise_append, pairwise_cons] at hsorted
  rw [entries, hitems, flatMap_append, flatMap_cons, hxe] at hcount hmap
  have hentries : root.items.flatMap TreeItem.entries =
      (before up ++ l.items).flatMap TreeItem.entries ++ (r.items ++ after up).flatMap TreeItem.entries := by
    rw [hnew, flatMap_append]
  refine ⟨root, hroot, hfixed.rb, hfixed.root, ?_, fun z hz => hold z ?_, ?_, ?_⟩
  · rw [hnew, Sorted, pairwise_append]
    exact ⟨hsorted.1, hsorted.2.1.2, fun y hy z hz => hsorted.2.2 y hy z (mem_cons_of_mem _ hz)⟩
  · rw [hnew, mem_append] at hz
    rw [mem_append]
    exact hz.imp_right (mem_cons_of_mem _)
  · rw [entries, hentries]
    simp only [length_append, length_cons, length_nil] at hcount ⊢
    omega
  · rw [entries, hentries]
    exact hmap.remove keys.equiv hk

/-! ### The operations -/

theorem setItem_spec (h : Rep keys t m) {a b : List (TreeItem K V)} (hitems : t.root.items = a ++ x :: b)
    (hx : x.hash = keys.hash key) (val : V) :
    (setItem keys x key val).1.hash = x.hash ∧ (∀ e ∈ (setItem keys x key val).1.entries, keys.hash e.1 = x.hash) ∧
      (setItem keys x key val).1.entries.length = x.entries.length + (if (setItem keys x key val).2 then 1 else 0) ∧
      ∀ a b, t.entries = a ++ x.entries ++ b →
        Lists keys.eq (a ++ (setItem keys x key val).1.entries ++ b) (assign keys.eq m key val) := by
  have hhashes : ∀ e ∈ x.entries, keys.hash e.1 = x.hash := h.hashes x (by rw [hitems]; simp)
  rw [TreeItem.entries, forall_mem_cons] at hhashes
  rw [setItem]
  by_cases hk : keys.eq x.key key = true
  · rw [if_pos hk]
    refine ⟨rfl, forall_mem_cons.2 hhashes, rfl, fun a b hab => ?_⟩
    have hl := hab ▸ h.lists
    rw [TreeItem.entries, append_assoc] at hl ⊢
    exact hl.change keys.equiv hk val
  · rw [if_neg hk]
    obtain hno | ⟨c, k, v, d, hc, hk', hfirst⟩ := chain_cases keys.eq key x.overflow
    · have habsent := h.absent_node hitems hx (forall_mem_cons.2 ⟨by simpa using hk, hno⟩)
      rw [(chain_none hno val).2.1]
      refine ⟨rfl, forall_mem_cons.2 ⟨hhashes.1, forall_mem_cons.2 ⟨hx.symm, hhashes.2⟩⟩, rfl,
        fun a b hab => ?_⟩
      refine (h.lists.cons keys.equiv habsent val).perm keys.equiv ?_
      rw [hab, TreeItem.entries, TreeItem.entries]
      have hperm : (a ++ (x.key, x.val) :: (key, val) :: (x.overflow ++ b)).Perm
          ((key, val) :: (a ++ (x.key, x.val) :: (x.overflow ++ b))) := by
        have hmiddle : (a ++ [(x.key, x.val)] ++ (key, val) :: (x.overflow ++ b)).Perm
            ((key, val) :: (a ++ [(x.key, x.val)] ++ (x.overflow ++ b))) := perm_middle
        simpa using hmiddle
      simpa using hperm.symm
    · rw [hc] at hhashes
      rw [hc, setChain_eq hfirst hk']
      refine ⟨rfl, forall_mem_cons.2 ⟨hhashes.1, fun e he => ?_⟩, ?_, fun a b hab => ?_⟩
      · rw [mem_append, mem_cons] at he
        obtain he | rfl | he := he
        · exact hhashes.2 e (mem_append_left _ he)
        · exact hhashes.2 (k, v) (mem_append_right _ mem_cons_self)
        · exact hhashes.2 e (mem_append_right _ (mem_cons_of_mem _ he))
      · rw [TreeItem.entries, TreeItem.entries, hc]
        simp
      · have hl := hab ▸ h.lists
        rw [TreeItem.entries, hc] at hl
        have hold : a ++ (x.key, x.val) :: (c ++ (k, v) :: d) ++ b = (a ++ (x.key, x.val) :: c) ++ (k, v) :: (d ++ b) := by simp
        have hnew : a ++ (x.key, x.val) :: (c ++ (k, val) :: d) ++ b =
            (a ++ (x.key, x.val) :: c) ++ (k, val) :: (d ++ b) := by simp
        rw [TreeItem.entries]
        rw [hold] at hl
        rw [hnew]
        exact hl.change keys.equiv hk' val

theorem rep_set (h : Rep keys t m) (key : K) (val : V) :
    ∃ t', t.set keys key val = some (.ok, t') ∧ Rep keys t' (assign keys.eq m key val) := by
  rw [set]
  obtain ⟨up, hfind, hplaced, hitems, hbefore, hafter⟩ | ⟨c, l, x, r, up, hfind, hplaced, hitems, hx⟩ := h.find key
  · obtain ⟨root, hroot, hrep⟩ := rep_insert h hplaced hitems hbefore hafter val
    rw [hfind]
    dsimp only
    rw [hroot]
    exact ⟨_, rfl, hrep⟩
  · have hspec := setItem_spec h hitems hx val
    rw [hfind]
    dsimp only
    revert hspec
    cases setItem keys x key val with
    | mk x' new =>
      rintro ⟨h1, h2, h3, h4⟩
      refine ⟨_, rfl, rep_change h hplaced hitems x' _ h1 h2 ?_ h4⟩
      rw [h3]
      split <;> omega

theorem rep_get [Zero V] (h : Rep keys t m) (key : K) : t.get keys key = (m key).getD 0 := by
  rw [get]
  obtain ⟨up, hfind, -, hitems, hbefore, hafter⟩ | ⟨c, l, x, r, up, hfind, -, hitems, hx⟩ := h.find key
  · have hno : ∀ e ∈ t.entries, keys.eq e.1 key = false := h.absent fun z hz => by
      rw [hitems, mem_append] at hz
      obtain hz | hz := hz
      · exact Nat.ne_of_lt (hbefore z hz)
      · exact Nat.ne_of_gt (hafter z hz)
    rw [hfind, h.lists.get_none hno]
    rfl
  · have hmem : ∀ e ∈ x.entries, e ∈ t.entries := fun e he => by
      rw [entries, hitems, mem_flatMap]
      exact ⟨x, by simp, he⟩
    rw [hfind]
    dsimp only
    by_cases hk : keys.eq x.key key = true
    · rw [if_pos hk, h.lists.get_of_mem (hmem (x.key, x.val) mem_cons_self) hk]
      rfl
    · rw [if_neg hk]
      obtain hno | ⟨a, k, v, b, hc, hk', hfirst⟩ := chain_cases keys.eq key x.overflow
      · rw [(chain_none hno 0).1,
          h.lists.get_none (h.absent_node hitems hx (forall_mem_cons.2 ⟨by simpa using hk, hno⟩))]
      · have hin : (k, v) ∈ x.entries := by
          rw [TreeItem.entries, hc]
          simp
        rw [hc, getChain_eq hfirst hk', h.lists.get_of_mem (hmem _ hin) hk']

theorem rep_del [Zero V] (h : Rep keys t m) (key : K) :
    ∃ t', t.del keys key = some ((m key).getD 0, t') ∧ Rep keys t' (unassign keys.eq m key) := by
  rw [del]
  obtain ⟨up, hfind, -, hitems, hbefore, hafter⟩ | ⟨c, l, x, r, up, hfind, hplaced, hitems, hx⟩ := h.find key
  · have hno : ∀ e ∈ t.entries, keys.eq e.1 key = false := h.absent fun z hz => by
      rw [hitems, mem_append] at hz
      obtain hz | hz := hz
      · exact Nat.ne_of_lt (hbefore z hz)
      · exact Nat.ne_of_gt (hafter z hz)
    rw [hfind, h.lists.get_none hno, h.lists.unassign_eq keys.equiv (h.lists.get_none hno)]
    exact ⟨t, rfl, h⟩
  · have hmem : ∀ e ∈ x.entries, e ∈ t.entries := fun e he => by
      rw [entries, hitems, mem_flatMap]
      exact ⟨x, by simp, he⟩
    have hhashes : ∀ e ∈ x.entries, keys.hash e.1 = x.hash := h.hashes x (by rw [hitems]; simp)
    have hpos : 0 < t.size := by
      rw [h.size]
      exact length_pos_of_mem (hmem _ mem_cons_self)
    rw [hfind]
    dsimp only
    by_cases hk : keys.eq x.key key = true
    · rw [if_pos hk, h.lists.get_of_mem (hmem (x.key, x.val) mem_cons_self) hk]
      cases hover : x.overflow with
      | nil =>
        obtain ⟨root, hroot, hrep⟩ := rep_remove h hplaced hitems hover hk
        rw [hroot]
        exact ⟨_, rfl, hrep⟩
      | cons o overflow =>
        have hxe : x.entries = (x.key, x.val) :: o :: overflow := by rw [TreeItem.entries, hover]
        refine ⟨_, rfl, rep_change h hplaced hitems { x with key := o.1, val := o.2, overflow } _ rfl
          (fun e he => hhashes e ?_) ?_ fun a b hab => ?_⟩
        · rw [hxe]
          exact mem_cons_of_mem _ he
        · rw [hxe, TreeItem.entries, length_cons, length_cons]
          omega
        · have hl := hab ▸ h.lists
          rw [hxe, append_assoc] at hl
          rw [append_assoc]
          exact hl.remove keys.equiv hk
    · rw [if_neg hk]
      obtain hno | ⟨a, k, v, b, hc, hk', hfirst⟩ := chain_cases keys.eq key x.overflow
      · have habsent := h.absent_node hitems hx (forall_mem_cons.2 ⟨by simpa using hk, hno⟩)
        rw [(chain_none hno 0).2.2, h.lists.get_none habsent,
          h.lists.unassign_eq keys.equiv (h.lists.get_none habsent)]
        exact ⟨t, rfl, h⟩
      · have hxe : x.entries = ((x.key, x.val) :: a) ++ (k, v) :: b := by
          rw [TreeItem.entries, hc]
          rfl
        rw [hc, delChain_eq hfirst hk', h.lists.get_of_mem (hmem (k, v) (by rw [hxe]; simp)) hk']
        refine ⟨_, rfl, rep_change h hplaced hitems { x with overflow := a ++ b } _ rfl (fun e he => hhashes e ?_) ?_
          fun c d hab => ?_⟩
        · rw [TreeItem.entries, mem_cons, mem_append] at he
          rw [hxe, mem_append, mem_cons, mem_cons]
          obtain rfl | he | he := he
          · exact .inl (.inl rfl)
          · exact .inl (.inr he)
          · exact .inr (.inr he)
        · rw [hxe, TreeItem.entries]
          simp only [length_append, length_cons]
          omega
        · have hl := hab ▸ h.lists
          rw [hxe] at hl
          have hold : c ++ ((x.key, x.val) :: a ++ (k, v) :: b) ++ d = (c ++ (x.key, x.val) :: a) ++ (k, v) :: (b ++ d) := by simp
          have hnew : c ++ TreeItem.entries { x with overflow := a ++ b } ++ d = (c ++ (x.key, x.val) :: a) ++ (b ++ d) := by
            simp [TreeItem.entries]
          rw [hold] at hl
          rw [hnew]
          exact hl.remove keys.equiv hk'

theorem iterateSubtree_eq (fn : List (K × V) → Bool) (done : List (K × V)) (n : TreeNode K V) :
    n.iterateSubtree fn done = visit fn done (n.items.flatMap TreeItem.entries) := by
  induction n generalizing done with
  | null => rfl
  | node c l x r ihl ihr =>
    rw [iterateSubtree, items, flatMap_append, flatMap_cons, visit_append, ihl]
    cases hl : visit fn done (l.items.flatMap TreeItem.entries) with
    | mk d go =>
      cases go with
      | false => rfl
      | true =>
        dsimp only
        rw [if_pos rfl, visit_append]
        cases hx : visit fn d x.entries with
        | mk d' go' =>
          cases go' with
          | false => rfl
          | true =>
            rw [if_pos rfl]
            exact ihr d'

theorem iterate_eq (t : TreeMap K V) (fn : List (K × V) → Bool) : t.iterate fn = (visit fn [] t.entries).1 := by
  rw [iterate, iterateSubtree_eq, entries]

end TreeMap

end Libx.Map
