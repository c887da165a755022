import Libx.Core.Run
import Libx.Map.LinkedFixup
import Libx.Map.TreeExact

/-!
# Libx.Map.LinkedExact — the pointers in every run
-/

namespace Libx.Map

open Libx.Core (Run Yields cellAt Holds replay exists_run_of_replay)
open TreeNode List Option

variable {K V : Type} {s s' l r : TreeNode ℕ (Entry K V)} {x : TreeItem ℕ (Entry K V)} {c : Color}
  {p : Parent ℕ (Entry K V)} {up : List (Parent ℕ (Entry K V))} {R : Multiset (ℕ × Cell K V)} {t : Links K V}
  {a fuel h : ℕ}

/-! ### The searches -/

/-- `dir`. -/
def dirOf : List (Parent ℕ (Entry K V)) → Option Side
  | [] => none
  | p :: _ => some p.side

namespace At

theorem findNode (hat : At R s up t) (hfuel : s.items.length ≤ fuel) :
    t.findNode h fuel s.ptr = some (Map.findNode h s up).1.ptr ∧
      At R (Map.findNode h s up).1 (Map.findNode h s up).2 t := by
  fun_induction Map.findNode h s up generalizing fuel with
  | case1 up => exact ⟨by cases fuel <;> rfl, hat⟩
  | case2 c l x r up hlt ih =>
    obtain ⟨fuel, rfl, hl, hr⟩ := rounds_of_node hfuel
    obtain ⟨hfind, hat'⟩ := ih (join_iff (p := ⟨.left, c, x, r⟩).1 hat) hl
    refine ⟨?_, hat'⟩
    rw [ptr, Links.findNode, hat.node_cell .left]
    exact (if_pos hlt).trans hfind
  | case3 c l x r up hle hlt ih =>
    obtain ⟨fuel, rfl, hl, hr⟩ := rounds_of_node hfuel
    obtain ⟨hfind, hat'⟩ := ih (join_iff (p := ⟨.right, c, x, l⟩).1 hat) hr
    refine ⟨?_, hat'⟩
    rw [ptr, Links.findNode, hat.node_cell .left]
    exact ((if_neg hle).trans (if_pos hlt)).trans hfind
  | case4 c l x r up hle hge =>
    obtain ⟨fuel, rfl, hl, hr⟩ := rounds_of_node hfuel
    refine ⟨?_, hat⟩
    rw [ptr, Links.findNode, hat.node_cell .left]
    exact (if_neg hle).trans (if_neg hge)

theorem search (hat : At R s up t) (hfuel : s.items.length ≤ fuel) :
    t.search h fuel s.ptr (ptrUp up) (dirOf up) = some ((Map.findNode h s up).1.ptr,
      (Map.findNode h s up).1.ptr.or (ptrUp (Map.findNode h s up).2), dirOf (Map.findNode h s up).2) := by
  fun_induction Map.findNode h s up generalizing fuel with
  | case1 up => cases fuel <;> rfl
  | case2 c l x r up hlt ih =>
    obtain ⟨fuel, rfl, hl, hr⟩ := rounds_of_node hfuel
    rw [ptr, Links.search, hat.node_cell .left]
    exact (if_pos hlt).trans (ih (join_iff (p := ⟨.left, c, x, r⟩).1 hat) hl)
  | case3 c l x r up hle hlt ih =>
    obtain ⟨fuel, rfl, hl, hr⟩ := rounds_of_node hfuel
    rw [ptr, Links.search, hat.node_cell .left]
    exact ((if_neg hle).trans (if_pos hlt)).trans (ih (join_iff (p := ⟨.right, c, x, l⟩).1 hat) hr)
  | case4 c l x r up hle hge =>
    obtain ⟨fuel, rfl, hl, hr⟩ := rounds_of_node hfuel
    rw [ptr, Links.search, hat.node_cell .left]
    exact (if_neg hle).trans (if_neg hge)

theorem linkNode (hat : At R .null up t) (hslot : t.nodes x.key = none) :
    Yields (Links.linkNode
        { t with nodes := Function.update t.nodes x.key (some (cell .left x .red none none (ptrUp up))) }
        x.key (ptrUp up) (dirOf up))
      (At R (.node .red .null x .null) up) := by
  have halloc := hat.holds.alloc hslot (cell .left x .red none none (ptrUp up))
  cases up with
  | nil =>
    refine .some ⟨rfl, halloc.of_eq ?_⟩
    dsimp only [cells, cellsUp, ptr]
    abel
  | cons p up =>
    have hp : Own _ (cellAt p.item.key (cell p.side p.item p.color none p.sibling.ptr (ptrUp up)) +
        (cellAt x.key (cell .left x .red none none (ptrUp (p :: up))) +
          (p.sibling.cells (some p.item.key) + (cellsUp (some p.item.key) up + R))))
        { t with nodes := Function.update t.nodes x.key (some (cell .left x .red none none (ptrUp (p :: up)))) } :=
      ⟨hat.root, halloc.of_eq (by dsimp only [cells, cellsUp, ptr]; abel)⟩
    have hside : (if dirOf (p :: up) = some .left then Side.left else .right) = p.side := by
      rw [dirOf]
      cases p.side <;> rfl
    rw [ptrUp, Links.linkNode, hside]
    refine (hp.setChild (some x.key)).mono fun t1 h1 => h1.of_eq ?_
    dsimp only [cells, cellsUp, ptr, ptrUp]
    abel

end At

/-! ### What is kept -/

def weight (x : TreeItem ℕ (Entry K V)) : ℕ := x.val.overflow.length + 1

theorem length_le_weight (l : List (TreeItem ℕ (Entry K V))) : l.length ≤ (l.map weight).sum := by
  induction l with
  | nil => exact le_rfl
  | cons x l ih =>
    rw [length_cons, map_cons, sum_cons, weight]
    omega

/-- The pointers make a balanced tree in the order of the hashes, and the size is the number of entries. -/
structure Sound (t : LinkedMap K V) (s : TreeNode ℕ (Entry K V)) : Prop where
  shape : At 0 s [] t.links
  balanced : ∃ n, Rb n s
  root : s.isRed = false
  sorted : Sorted s.items
  size : t.size = (s.items.map weight).sum

theorem sound_create : Sound (LinkedMap.create : LinkedMap K V) .null :=
  ⟨⟨rfl, Holds.zero⟩, ⟨0, .null⟩, rfl, .nil, rfl⟩

namespace Sound

variable {m : LinkedMap K V}

theorem length_le (hm : Sound m s) : s.items.length ≤ m.size := by
  rw [hm.size]
  exact length_le_weight s.items

theorem placed (hm : Sound m s) : Placed s [] := by
  obtain ⟨n, hn⟩ := hm.balanced
  refine ⟨n, hn, .root, fun hr => ?_⟩
  rw [hm.root] at hr
  cases hr

theorem find (hm : Sound m s) (h : ℕ) :
    (∃ up, Map.findNode h s [] = (.null, up) ∧ At 0 .null up m.links ∧ Placed (.null : TreeNode ℕ (Entry K V)) up ∧
      s.items = before up ++ after up ∧ (∀ z ∈ before up, z.hash < h) ∧ ∀ z ∈ after up, h < z.hash) ∨
    ∃ c l x r up, Map.findNode h s [] = (.node c l x r, up) ∧ At 0 (.node c l x r) up m.links ∧
      Placed (.node c l x r) up ∧ plug up (.node c l x r) = s := by
  obtain ⟨hplaced, hplug⟩ := placed_findNode h s [] hm.placed
  obtain ⟨-, hat⟩ := hm.shape.findNode (h := h) le_rfl
  have hspec := findNode_spec h s [] hm.sorted nofun nofun
  cases hfind : Map.findNode h s [] with
  | mk s' up =>
    rw [hfind] at hplaced hplug hat hspec
    cases s' with
    | null =>
      have hitems := congrArg TreeNode.items hplug
      rw [items_plug, items, List.append_nil] at hitems
      exact .inl ⟨up, rfl, hat, hplaced, hitems.symm, hspec.1, hspec.2⟩
    | node c l x r => exact .inr ⟨c, l, x, r, up, rfl, hat, hplaced, hplug⟩

theorem change (hm : Sound m (plug up (.node c l x r))) (hplaced : Placed (.node c l x r) up) {e : Entry K V}
    {links : Links K V} (hat : At 0 (.node c l { x with val := e } r) up links) {size : ℕ}
    (hsize : size + weight x = m.size + weight { x with val := e }) :
    Sound { links, size } (plug up (.node c l { x with val := e } r)) := by
  obtain ⟨hrb, hroot⟩ := placed_plug (placed_item hplaced { x with val := e })
  refine ⟨hat.whole, hrb, hroot, ?_, ?_⟩
  · have hsorted := hm.sorted
    rw [Sorted, ← pairwise_map, items_plug, items] at hsorted ⊢
    simpa using hsorted
  · have hsum := hm.size
    rw [items_plug, items] at hsum ⊢
    simp only [map_append, map_cons, sum_append, sum_cons] at hsum ⊢
    omega

theorem up_length_le (up : List (Parent ℕ (Entry K V))) : up.length ≤ (before up).length + (after up).length := by
  induction up with
  | nil => exact le_rfl
  | cons p up ih =>
    rw [before, after, length_cons, length_append, length_append]
    cases p.side <;> simp only [length_append, length_cons, length_nil] <;> omega

variable {hash : K → ℕ} {eq : K → K → Bool} {key : K} {val : V} {z : ℕ}

theorem insertNode (hm : Sound m s) (hat : At 0 .null up m.links) (hplaced : Placed (.null : TreeNode ℕ (Entry K V)) up)
    (hitems : s.items = before up ++ after up) (hbefore : ∀ z ∈ before up, z.hash < hash key)
    (hafter : ∀ z ∈ after up, hash key < z.hash) (val : V) (hslot : m.links.nodes z = none) :
    Yields (m.insertNode hash key val z (ptrUp up) (dirOf up)) fun m' => ∃ s', Sound m' s' := by
  obtain ⟨n, hrb, hup, -⟩ := hplaced
  obtain rfl : n = 0 := by
    cases hrb
    rfl
  have hfuel := hm.length_le
  rw [hitems, length_append] at hfuel
  obtain ⟨root, hroot, hfixed⟩ := insertFixup_spec
    (z := .node .red .null { hash := hash key, key := z, val := ({ key, val } : Entry K V) } .null)
    (.red .null .null rfl rfl) rfl hup
  have hlink := hat.linkNode (x := { hash := hash key, key := z, val := { key, val } }) hslot
  rw [LinkedMap.insertNode]
  refine hlink.bind fun links1 h1 => (h1.insertFixup rfl ?_ hroot).bind fun links2 h2 => ?_
  · have hlength := up_length_le up
    omega
  have hnew : root.items = before up ++ { hash := hash key, key := z, val := { key, val } } :: after up := by
    rw [hfixed.items]
    simp [items]
  have hsorted := hm.sorted
  have hsize := hm.size
  rw [hitems, Sorted, pairwise_append] at hsorted
  rw [hitems] at hsize
  refine .some ⟨root, h2, hfixed.rb, hfixed.root, ?_, ?_⟩
  · rw [hnew, Sorted, pairwise_append, pairwise_cons]
    refine ⟨hsorted.1, ⟨hafter, hsorted.2.1⟩, fun y hy z hz => ?_⟩
    obtain rfl | hz := mem_cons.1 hz
    · exact hbefore y hy
    · exact hsorted.2.2 y hy z hz
  · rw [hnew]
    simp only [map_append, map_cons, sum_append, sum_cons, weight, length_nil] at hsize ⊢
    omega

theorem removeNode (hm : Sound m (plug up (.node c l x r))) (hat : At 0 (.node c l x r) up m.links)
    (hplaced : Placed (.node c l x r) up) (hover : x.val.overflow = []) :
    Yields (m.removeNode x.key) fun m' => ∃ s', Sound m' s' := by
  have hcount := hm.length_le
  have hsorted := hm.sorted
  have hsize := hm.size
  have hlength := up_length_le up
  rw [items_plug, items] at hcount hsorted hsize
  simp only [length_append, length_cons] at hcount
  obtain ⟨root, hroot, hfixed⟩ := removeNode_spec hplaced
  rw [LinkedMap.removeNode]
  refine (hat.unlink (by omega)).bind fun o ho => ?_
  obtain ⟨links1, ptr1, parent1, color1⟩ := o
  obtain ⟨s', up', cn, rfl, rfl, h1, hup', hremove⟩ := ho
  have h2 := h1.free
  rw [hroot] at hremove
  refine .bind (P := At 0 root []) ?_ fun links2 h3 => .some ⟨root, h3, hfixed.rb, hfixed.root, ?_, ?_⟩
  · by_cases hc : color1 = .black
    · rw [if_pos hc] at hremove ⊢
      exact h2.deleteFixup (by split <;> omega) hremove.symm
    · rw [if_neg hc] at hremove ⊢
      obtain rfl := some.inj hremove
      exact .some h2.whole
  · rw [hfixed.items, Sorted]
    refine List.Pairwise.sublist ?_ hsorted
    simp
  · rw [hfixed.items]
    simp only [map_append, map_cons, sum_append, sum_cons, weight, hover, length_nil] at hsize ⊢
    omega

theorem setChain_length {o o' : List (K × V)} (h : setChain eq key val o = some o') : o'.length = o.length := by
  induction o generalizing o' with
  | nil => cases h
  | cons e o ih =>
    rw [setChain] at h
    split at h
    · rw [← some.inj h]
      rfl
    · obtain ⟨o₁, hset, rfl⟩ := map_eq_some_iff.1 h
      rw [length_cons, length_cons, ih hset]

theorem delChain_length {o : List (K × V)} {d : V × List (K × V)} (h : delChain eq key o = some d) :
    o.length = d.2.length + 1 := by
  induction o generalizing d with
  | nil => cases h
  | cons e o ih =>
    rw [delChain] at h
    split at h
    · rw [← some.inj h]
      rfl
    · obtain ⟨d₁, hdel, rfl⟩ := map_eq_some_iff.1 h
      rw [length_cons, length_cons, ih hdel]

theorem setEntry_length {e e' : Entry K V} (h : LinkedMap.setEntry eq e key val = some e') :
    e'.overflow.length = e.overflow.length := by
  rw [LinkedMap.setEntry] at h
  by_cases hk : eq e.key key = true
  · rw [if_pos hk] at h
    rw [← some.inj h]
  · rw [if_neg hk] at h
    obtain ⟨overflow, hset, rfl⟩ := map_eq_some_iff.1 h
    exact setChain_length hset

theorem set (hm : Sound m s) (key : K) (val : V) {slot : Option ℕ} (room : Bool)
    (hslot : ∀ z, slot = some z → m.links.nodes z = none) :
    Yields (m.set hash eq key val slot room) fun o => ∃ s', Sound o.2 s' := by
  rw [LinkedMap.set]
  have hsearch := hm.shape.search (h := hash key) hm.length_le
  rw [hm.shape.root]
  obtain ⟨up, hfind, hat, hplaced, hitems, hbefore, hafter⟩ | ⟨c, l, x, r, up, hfind, hat, hplaced, rfl⟩ :=
    hm.find (hash key)
  · rw [hfind] at hsearch
    refine .read hsearch ?_
    cases slot with
    | none => exact .some ⟨s, hm⟩
    | some z =>
      exact (hm.insertNode hat hplaced hitems hbefore hafter val (hslot z rfl)).map fun m' h => h
  · rw [hfind] at hsearch
    refine .read hsearch (.read (hat.node_cell .left) ?_)
    rw [cell_entry]
    cases hset : LinkedMap.setEntry eq x.val key val with
    | some e =>
      refine (hat.setEntry e).map fun links h => ⟨_, hm.change hplaced h ?_⟩
      rw [weight, weight, setEntry_length hset]
    | none =>
      by_cases hroom : room = true
      · rw [if_pos hroom]
        refine (hat.setEntry _).map fun links h => ⟨_, hm.change hplaced h ?_⟩
        rw [weight, weight, length_cons]
        omega
      · rw [if_neg hroom]
        exact .some ⟨_, hm⟩

theorem del [Zero V] (hm : Sound m s) (key : K) :
    Yields (m.del hash eq key) fun o => ∃ s', Sound o.2 s' := by
  rw [LinkedMap.del]
  obtain ⟨hsearch, -⟩ := hm.shape.findNode (h := hash key) hm.length_le
  rw [hm.shape.root]
  obtain ⟨up, hfind, hat, -⟩ | ⟨c, l, x, r, up, hfind, hat, hplaced, rfl⟩ := hm.find (hash key)
  · rw [hfind] at hsearch
    exact .read hsearch (.some ⟨s, hm⟩)
  · rw [hfind] at hsearch
    have hpos : weight x ≤ m.size := by
      rw [hm.size, items_plug, items]
      simp only [map_append, map_cons, sum_append, sum_cons]
      omega
    rw [weight] at hpos
    refine .read hsearch (.read (hat.node_cell .left) ?_)
    rw [cell_entry]
    by_cases hk : eq x.val.key key = true
    · rw [if_pos hk]
      cases hover : x.val.overflow with
      | nil => exact (hm.removeNode hat hplaced hover).map fun m' h => h
      | cons o overflow =>
        refine (hat.setEntry _).map fun links h => ⟨_, hm.change hplaced h ?_⟩
        rw [weight, weight, hover, length_cons]
        dsimp only
        omega
    · rw [if_neg hk]
      cases hdel : delChain eq key x.val.overflow with
      | none => exact .some ⟨_, hm⟩
      | some o =>
        have hlength := delChain_length hdel
        refine (hat.setEntry _).map fun links h => ⟨_, hm.change hplaced h ?_⟩
        rw [weight, weight]
        dsimp only
        omega

theorem step [Zero V] (hash : K → ℕ) (eq : K → K → Bool) (hm : Sound m s) (op : TreeOp K V) (hfresh : m.Fresh op) :
    Yields (m.step hash eq op) fun m' => ∃ s', Sound m' s' := by
  cases op with
  | set key val slot room =>
    refine (hm.set key val room fun z hz => ?_).map fun o h => h
    rw [hz] at hfresh
    exact hfresh
  | del key => exact (hm.del key).map fun o h => h

end Sound

/-! ### The red-black tree -/

def TreeNode.height : TreeNode ℕ (Entry K V) → ℕ
  | .null => 0
  | .node _ l _ r => max l.height r.height + 1

theorem Rb.height_le {n : ℕ} (h : Rb n s) : s.height ≤ 2 * n + 1 ∧ (s.isRed = false → s.height ≤ 2 * n) := by
  induction h with
  | null => exact ⟨Nat.zero_le _, fun _ => le_rfl⟩
  | red _ _ hl hr ihl ihr =>
    have hleft := ihl.2 hl
    have hright := ihr.2 hr
    refine ⟨?_, nofun⟩
    rw [height]
    omega
  | black _ _ ihl ihr =>
    rw [height]
    exact ⟨by omega, fun _ => by omega⟩

theorem Rb.pow_le {n : ℕ} (h : Rb n s) : 2 ^ n ≤ s.items.length + 1 := by
  induction h with
  | null => exact le_rfl
  | red _ _ _ _ ihl ihr =>
    rw [items, length_append, length_cons]
    omega
  | black _ _ ihl ihr =>
    rw [items, length_append, length_cons, pow_succ]
    omega

/-- The nodes below a pointer are those of the tree, and each knows its parent. -/
inductive Points (t : Links K V) : Option ℕ → Option ℕ → TreeNode ℕ (Entry K V) → Prop
  | null {parent : Option ℕ} : Points t parent none .null
  | node {parent : Option ℕ} {c : Cell K V} {l r : TreeNode ℕ (Entry K V)} {x : TreeItem ℕ (Entry K V)} :
      t.nodes x.key = some c → c.hash = x.hash → c.parent = parent → Points t (some x.key) c.left l →
      Points t (some x.key) c.right r → Points t parent (some x.key) (.node c.color l x r)

theorem points_of_holds {par : Option ℕ} (h : Holds t.nodes (s.cells par + R)) : Points t par s.ptr s := by
  induction s generalizing par R with
  | null => exact .null
  | node c l x r ihl ihr =>
    rw [cells, add_assoc, add_assoc] at h
    exact .node (c := cell .left x c l.ptr r.ptr par) h.read rfl rfl (ihl h.rest) (ihr h.rest.rest)

/-- **The red-black tree**: its order, colors and heights, and the parent pointers. -/
structure RedBlack (t : Links K V) (s : TreeNode ℕ (Entry K V)) : Prop where
  points : Points t none t.root s
  sorted : Sorted s.items
  root : s.isRed = false
  balanced : ∃ n, Rb n s
  height : s.height ≤ 2 * (s.items.length + 1).log2

theorem Sound.redBlack {m : LinkedMap K V} (hm : Sound m s) : RedBlack m.links s := by
  obtain ⟨n, hn⟩ := hm.balanced
  refine ⟨?_, hm.sorted, hm.root, hm.balanced, ?_⟩
  · rw [hm.shape.root]
    exact points_of_holds (hm.shape.holds.of_eq (add_assoc ..))
  · have hlog : n ≤ (s.items.length + 1).log2 := (Nat.le_log2 (Nat.succ_ne_zero _)).2 hn.pow_le
    have hheight := hn.height_le.2 hm.root
    omega

/-- **The tree stays a red-black tree**, and no call follows a `NULL` or a node that has been freed. -/
theorem redBlack_of_run [Zero V] (hash : K → ℕ) (eq : K → K → Bool) {m : LinkedMap K V}
    (h : Run (LinkedMap.step hash eq) LinkedMap.Fresh LinkedMap.create m) :
    (∃ s, RedBlack m.links s) ∧ ∀ op, m.Fresh op → ∃ m', m.step hash eq op = some m' := by
  have hsound : ∃ s, Sound m s := by
    refine h.preserves (I := fun m => ∃ s, Sound m s) (fun m op m' hm hfresh hstep => ?_) ⟨_, sound_create⟩
    obtain ⟨s, hm⟩ := hm
    obtain ⟨m₁, hm₁, hsound⟩ := hm.step hash eq op hfresh
    obtain rfl := some.inj (hm₁.symm.trans hstep)
    exact hsound
  obtain ⟨s, hs⟩ := hsound
  refine ⟨⟨s, hs.redBlack⟩, fun op hfresh => ?_⟩
  obtain ⟨m', hm', -⟩ := hs.step hash eq op hfresh
  exact ⟨m', hm'⟩

def freshB (m : LinkedMap K V) : TreeOp K V → Bool
  | .set _ _ (some z) _ => (m.links.nodes z).isNone
  | _ => true

theorem fresh_of_freshB (m : LinkedMap K V) (op : TreeOp K V) (h : freshB m op = true) : m.Fresh op := by
  cases op with
  | set key val slot room =>
    cases slot with
    | none => trivial
    | some z => exact isNone_iff_eq_none.1 h
  | del key => trivial

/-- Five keys come and two go, the root among them. -/
theorem redBlack_of_run_five : ∃ m : LinkedMap ℕ ℕ,
    Run (LinkedMap.step id (· == ·)) LinkedMap.Fresh LinkedMap.create m ∧ m.size = 3 ∧
      (∃ s, RedBlack m.links s) ∧ ∀ op, m.Fresh op → ∃ m', m.step id (· == ·) op = some m' := by
  have hreplay : replay (LinkedMap.step id (· == ·)) freshB (fun m => decide (m.size = 3))
      (LinkedMap.create : LinkedMap ℕ ℕ)
      [.set 5 50 (some 0) true, .set 4 40 (some 1) true, .set 3 30 (some 2) true, .set 2 20 (some 3) true,
        .set 1 10 (some 4) true, .del 4, .del 5] = true := by decide +kernel
  obtain ⟨m, hrun, hsize⟩ := exists_run_of_replay _ LinkedMap.Fresh freshB _ fresh_of_freshB hreplay
  exact ⟨m, hrun, of_decide_eq_true hsize, redBlack_of_run id (· == ·) hrun⟩

end Libx.Map
