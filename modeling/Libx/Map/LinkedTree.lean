import Libx.Core.Footprint
import Libx.Map.Linked
import Libx.Map.TreeBalance

/-!
# Libx.Map.LinkedTree — the tree that the pointers make

The keys of the tree are the addresses of its nodes.
-/

namespace Libx.Map

open Libx.Core (Yields cellAt Holds)
open TreeNode Option

variable {K V : Type}

/-! ### Nodes as cells -/

/-- The node with its children as they are seen from one side. -/
def cell (side : Side) (x : TreeItem ℕ (Entry K V)) (color : Color) (near far parent : Option ℕ) : Cell K V :=
  match side with
  | .left => { hash := x.hash, entry := x.val, color, left := near, right := far, parent }
  | .right => { hash := x.hash, entry := x.val, color, left := far, right := near, parent }

section Cell

variable (side : Side) (x : TreeItem ℕ (Entry K V)) (c : Color) (near far par : Option ℕ)

@[simp] theorem cell_child : (cell side x c near far par).child side = near := by cases side <;> rfl

@[simp] theorem cell_child_other : (cell side x c near far par).child side.other = far := by cases side <;> rfl

@[simp] theorem cell_color : (cell side x c near far par).color = c := by cases side <;> rfl

@[simp] theorem cell_parent : (cell side x c near far par).parent = par := by cases side <;> rfl

@[simp] theorem cell_entry : (cell side x c near far par).entry = x.val := by cases side <;> rfl

end Cell

@[simp] theorem Side.other_other (side : Side) : side.other.other = side := by cases side <;> rfl

theorem join_other (side : Side) (s : TreeNode K V) (c : Color) (x : TreeItem K V) (r : TreeNode K V) :
    join side.other s c x r = join side r c x s := by
  cases side <;> rfl

def TreeNode.ptr : TreeNode ℕ (Entry K V) → Option ℕ
  | .null => none
  | .node _ _ x _ => some x.key

def ptrUp : List (Parent ℕ (Entry K V)) → Option ℕ
  | [] => none
  | p :: _ => some p.item.key

def TreeNode.cells (par : Option ℕ) : TreeNode ℕ (Entry K V) → Multiset (ℕ × Cell K V)
  | .null => 0
  | .node c l x r =>
    cellAt x.key (cell .left x c l.ptr r.ptr par) + (cells (some x.key) l + cells (some x.key) r)

/-- The parents above a child, with their other children. -/
def cellsUp (child : Option ℕ) : List (Parent ℕ (Entry K V)) → Multiset (ℕ × Cell K V)
  | [] => 0
  | p :: up =>
    cellAt p.item.key (cell p.side p.item p.color child p.sibling.ptr (ptrUp up)) +
      (p.sibling.cells (some p.item.key) + cellsUp (some p.item.key) up)

def rootOf (child : Option ℕ) : List (Parent ℕ (Entry K V)) → Option ℕ
  | [] => child
  | p :: up => rootOf (some p.item.key) up

variable {side : Side} {s l r : TreeNode ℕ (Entry K V)} {x : TreeItem ℕ (Entry K V)} {c c' : Color}
  {p : Parent ℕ (Entry K V)} {up : List (Parent ℕ (Entry K V))} {par child : Option ℕ} {a : ℕ}

@[simp] theorem ptr_join : (join side l c x r).ptr = some x.key := by cases side <;> rfl

@[simp] theorem ptr_parentJoin : (p.join s).ptr = some p.item.key := ptr_join

theorem cells_join : (join side l c x r).cells par =
    cellAt x.key (cell side x c l.ptr r.ptr par) + (l.cells (some x.key) + r.cells (some x.key)) := by
  cases side with
  | left => rfl
  | right => rw [add_comm (l.cells _)]; rfl

theorem exists_of_ptr (h : s.ptr = some a) : ∃ c l x r, s = .node c l x r ∧ x.key = a := by
  cases s with
  | null => cases h
  | node c l x r => exact ⟨c, l, x, r, rfl, some.inj h⟩

theorem ptr_eq_none (h : s.ptr = none) : s = .null := by
  cases s with
  | null => rfl
  | node => cases h

theorem exists_mem_cells (h : s.ptr = some a) (par : Option ℕ) : ∃ e ∈ s.cells par, e.1 = a := by
  obtain ⟨c, l, x, r, rfl, rfl⟩ := exists_of_ptr h
  exact ⟨_, Multiset.mem_add.2 (.inl (Multiset.mem_singleton_self _)), rfl⟩

theorem rootOf_eq (p : Parent ℕ (Entry K V)) (up : List (Parent ℕ (Entry K V))) :
    ∃ q ∈ p :: up, rootOf (some p.item.key) up = some q.item.key := by
  induction up generalizing p with
  | nil => exact ⟨p, List.mem_cons_self, rfl⟩
  | cons q up ih =>
    obtain ⟨q', hq, hroot⟩ := ih q
    exact ⟨q', List.mem_cons_of_mem _ hq, hroot⟩

theorem exists_mem_cellsUp (hp : p ∈ up) (child : Option ℕ) : ∃ e ∈ cellsUp child up, e.1 = p.item.key := by
  induction up generalizing child with
  | nil => cases hp
  | cons q up ih =>
    rw [cellsUp]
    obtain rfl | hp := List.mem_cons.1 hp
    · exact ⟨_, Multiset.mem_add.2 (.inl (Multiset.mem_singleton_self _)), rfl⟩
    · obtain ⟨e, he, hep⟩ := ih hp (some q.item.key)
      exact ⟨e, Multiset.mem_add.2 (.inr (Multiset.mem_add.2 (.inr he))), hep⟩

/-! ### Where the pointers lead -/

/-- The root, and the cells of a footprint. -/
structure Own (root : Option ℕ) (H : Multiset (ℕ × Cell K V)) (t : Links K V) : Prop where
  root : t.root = root
  holds : Holds t.nodes H

/-- **The pointers make the subtree below the parents**; the cells of `R` are besides. -/
def At (R : Multiset (ℕ × Cell K V)) (s : TreeNode ℕ (Entry K V)) (up : List (Parent ℕ (Entry K V)))
    (t : Links K V) : Prop :=
  Own (rootOf s.ptr up) (s.cells (ptrUp up) + cellsUp s.ptr up + R) t

variable {root : Option ℕ} {H R : Multiset (ℕ × Cell K V)} {t : Links K V} {near far v : Option ℕ}

namespace Own

theorem of_eq (h : Own root H t) (e : H = R) : Own root R t := e ▸ h

theorem read {cx : Cell K V} (h : Own root (cellAt a cx + R) t) : t.nodes a = some cx := h.holds.read

theorem modify {cx : Cell K V} (h : Own root (cellAt a cx + R) t) (f : Cell K V → Cell K V) :
    Yields (t.modify a f) (Own root (cellAt a (f cx) + R)) := by
  refine ⟨{ t with nodes := Function.update t.nodes a (some (f cx)) }, ?_, h.root, h.holds.write (f cx)⟩
  rw [Links.modify, h.read, map_some]

theorem setParent (h : Own root (cellAt a (cell side x c near far par) + R) t) (v : Option ℕ) :
    Yields (t.setParent a v) (Own root (cellAt a (cell side x c near far v) + R)) := by
  refine (h.modify _).mono fun t' h' => ?_
  cases side <;> exact h'

theorem setColor (h : Own root (cellAt a (cell side x c near far par) + R) t) (c' : Color) :
    Yields (t.setColor a c') (Own root (cellAt a (cell side x c' near far par) + R)) := by
  refine (h.modify _).mono fun t' h' => ?_
  cases side <;> exact h'

theorem setEntry (h : Own root (cellAt a (cell side x c near far par) + R) t) (e : Entry K V) :
    Yields (t.setEntry a e) (Own root (cellAt a (cell side { x with val := e } c near far par) + R)) := by
  refine (h.modify _).mono fun t' h' => ?_
  cases side <;> exact h'

theorem setChild (h : Own root (cellAt a (cell side x c near far par) + R) t) (v : Option ℕ) :
    Yields (t.setChild side a v) (Own root (cellAt a (cell side x c v far par) + R)) := by
  refine (h.modify _).mono fun t' h' => ?_
  cases side <;> exact h'

theorem setChild_other (h : Own root (cellAt a (cell side x c near far par) + R) t) (v : Option ℕ) :
    Yields (t.setChild side.other a v) (Own root (cellAt a (cell side x c near v par) + R)) := by
  refine (h.modify _).mono fun t' h' => ?_
  cases side <;> exact h'

/-! The parts of a footprint in another order. -/

section Order

variable {A B C D : Multiset (ℕ × Cell K V)}

theorem second (h : Own root (A + (B + R)) t) : Own root (B + (A + R)) t := h.of_eq (by abel)

theorem third (h : Own root (A + (B + (C + R))) t) : Own root (C + (A + (B + R))) t := h.of_eq (by abel)

theorem fourth (h : Own root (A + (B + (C + (D + R)))) t) : Own root (D + (A + (B + (C + R)))) t := h.of_eq (by abel)

end Order

theorem reparent (h : Own root (s.cells par + R) t) (v : Option ℕ) :
    Yields (t.unlessNull s.ptr (t.setParent · v)) (Own root (s.cells v + R)) := by
  cases s with
  | null => exact .some h
  | node c l x r =>
    rw [cells, add_assoc] at h ⊢
    exact h.setParent v

theorem relink {cx : Cell K V} (h : Own (rootOf (some a) up) (cellAt a cx + (cellsUp (some a) up + R)) t)
    (hparent : cx.parent = ptrUp up) (side : Side) (v : Option ℕ) :
    Yields (t.relink side a v) (Own (rootOf v up) (cellAt a cx + (cellsUp v up + R))) := by
  rw [Links.relink]
  refine .read h.read ?_
  rw [hparent]
  cases up with
  | nil => exact .some ⟨rfl, h.holds⟩
  | cons p up =>
    have hp : Own (rootOf (some a) (p :: up))
        (cellAt p.item.key (cell p.side p.item p.color (some a) p.sibling.ptr (ptrUp up)) +
          (cellAt a cx + (p.sibling.cells (some p.item.key) + (cellsUp (some p.item.key) up + R)))) t :=
      h.of_eq (by rw [cellsUp]; abel)
    have hsib : p.sibling.ptr ≠ some a := fun hs => by
      obtain ⟨e, he, hea⟩ := exists_mem_cells hs (some p.item.key)
      exact hp.second.holds.fst_ne (Multiset.mem_add.2 (.inr (Multiset.mem_add.2 (.inl he)))) hea
    have hset := hp.setChild v
    refine .read hp.read ?_
    have hside : (if (cell p.side p.item p.color (some a) p.sibling.ptr (ptrUp up)).child side = some a then side
        else side.other) = p.side := by
      by_cases hs : p.side = side
      · rw [hs, cell_child, if_pos rfl]
      · obtain rfl : side = p.side.other := by
          cases side <;> cases hps : p.side <;> simp_all [Side.other]
        rw [cell_child_other, if_neg hsib, Side.other_other]
    rw [hside]
    refine hset.mono fun t' h' => ⟨h'.root, h'.holds.of_eq ?_⟩
    rw [cellsUp]
    abel

end Own

theorem At.join_iff : At R (p.join s) up t ↔ At R s (p :: up) t := by
  have hcells : (p.join s).cells (ptrUp up) + cellsUp (p.join s).ptr up + R =
      s.cells (ptrUp (p :: up)) + cellsUp s.ptr (p :: up) + R := by
    rw [Parent.join, cells_join, ptr_join, cellsUp, ptrUp]
    abel
  rw [At, At, hcells, ptr_parentJoin, rootOf]

theorem at_plug (s : TreeNode ℕ (Entry K V)) (between up : List (Parent ℕ (Entry K V))) :
    At R (plug between s) up t ↔ At R s (between ++ up) t := by
  induction between generalizing s with
  | nil => exact Iff.rfl
  | cons p between ih => rw [plug, ih, At.join_iff, List.cons_append]

/-! ### A node of the tree -/

namespace At

theorem own (side : Side) (h : At R (join side l c x r) up t) :
    Own (rootOf (some x.key) up) (cellAt x.key (cell side x c l.ptr r.ptr (ptrUp up)) +
      (l.cells (some x.key) + r.cells (some x.key) + cellsUp (some x.key) up + R)) t := by
  rw [At, ptr_join, cells_join] at h
  exact h.of_eq (by abel)

theorem of_own (side : Side) (h : Own (rootOf (some x.key) up) (cellAt x.key (cell side x c l.ptr r.ptr (ptrUp up)) +
    (l.cells (some x.key) + r.cells (some x.key) + cellsUp (some x.key) up + R)) t) :
    At R (join side l c x r) up t := by
  rw [At, ptr_join, cells_join]
  exact h.of_eq (by abel)

theorem node_cell (side : Side) (h : At R (join side l c x r) up t) :
    t.nodes x.key = some (cell side x c l.ptr r.ptr (ptrUp up)) :=
  (h.own side).read

theorem parent_cell (h : At R s (p :: up) t) :
    t.nodes p.item.key = some (cell p.side p.item p.color s.ptr p.sibling.ptr (ptrUp up)) :=
  (join_iff.2 h).node_cell p.side

theorem flip (h : At R s (p :: up) t) : At R p.sibling ({ p with side := p.side.other, sibling := s } :: up) t := by
  rw [← join_iff] at h ⊢
  rwa [Parent.join, join_other]

theorem isRed (h : At R s up t) : t.isRed s.ptr = some s.isRed := by
  cases s with
  | null => rfl
  | node c l x r =>
    rw [ptr, Links.isRed, node_cell .left h, map_some, cell_color]
    cases c <;> rfl

theorem setColor (h : At R s up t) (ha : s.ptr = some a) (c : Color) :
    Yields (t.setColor a c) (At R (s.recolor c) up) := by
  obtain ⟨d, l, x, r, rfl, rfl⟩ := exists_of_ptr ha
  exact ((own .left h).setColor c).mono fun _ h' => of_own .left h'

theorem setEntry (h : At R (.node c l x r) up t) (e : Entry K V) :
    Yields (t.setEntry x.key e) (At R (.node c l { x with val := e } r) up) :=
  ((own .left h).setEntry e).mono fun _ h' => of_own .left (x := { x with val := e }) h'

theorem blacken (h : At R s up t) : Yields (t.unlessNull s.ptr (t.setColor · .black)) (At R (s.recolor .black) up) := by
  cases hs : s.ptr with
  | none =>
    rw [ptr_eq_none hs] at h ⊢
    exact .some h
  | some a => exact h.setColor hs .black

theorem setColor_parent (h : At R s (p :: up) t) (c : Color) :
    Yields (t.setColor p.item.key c) (At R s ({ p with color := c } :: up)) := by
  refine ((join_iff.2 h).setColor ptr_parentJoin c).mono fun t' h' => ?_
  rw [Parent.join, recolor_join] at h'
  exact join_iff.1 h'

theorem setColor_sibling (h : At R s (p :: up) t) (ha : p.sibling.ptr = some a) (c : Color) :
    Yields (t.setColor a c) (At R s ({ p with sibling := p.sibling.recolor c } :: up)) := by
  refine (h.flip.setColor ha c).mono fun t' h' => ?_
  have hback := h'.flip
  rw [Side.other_other] at hback
  exact hback

theorem ptr_ne (h : At R s (p :: up) t) (ha : s.ptr = some a) : p.sibling.ptr ≠ some a := by
  intro hsib
  obtain ⟨d, l, x, r, rfl, rfl⟩ := exists_of_ptr ha
  obtain ⟨e, he, hea⟩ := exists_mem_cells hsib (some p.item.key)
  refine (own .left h).holds.fst_ne (e := e) ?_ hea
  rw [cellsUp]
  simp only [Multiset.mem_add]
  exact .inl (.inr (.inr (.inl he)))

theorem parent_ne (h : At R s up t) (ha : s.ptr = some a) (hp : p ∈ up) : p.item.key ≠ a := by
  obtain ⟨d, l, x, r, rfl, rfl⟩ := exists_of_ptr ha
  obtain ⟨e, he, hep⟩ := exists_mem_cellsUp hp (some x.key)
  rw [← hep]
  exact (own .left h).holds.fst_ne (Multiset.mem_add.2 (.inl (Multiset.mem_add.2 (.inr he))))

/-- **A rotation**: the pointers make the rotated tree. -/
theorem rotate_join {m : TreeNode ℕ (Entry K V)} {d : Color} {y : TreeItem ℕ (Entry K V)}
    (h : At R (join side l c x (join side m d y r)) up t) :
    Yields (t.rotate side x.key) (At R (join side (join side l c x m) d y r) up) := by
  have h0 : Own (rootOf (some x.key) up) (cellAt x.key (cell side x c l.ptr (some y.key) (ptrUp up)) +
      (cellAt y.key (cell side y d m.ptr r.ptr (some x.key)) + (m.cells (some y.key) + (cellsUp (some x.key) up +
        (l.cells (some x.key) + r.cells (some y.key) + R))))) t := by
    have hown := h.own side
    rw [ptr_join, cells_join] at hown
    exact hown.of_eq (by abel)
  rw [Links.rotate]
  refine .read h0.read (.read (cell_child_other ..) (.read h0.second.read ?_))
  rw [cell_child]
  refine (h0.setChild_other m.ptr).bind fun t1 h1 => (h1.third.reparent (some x.key)).bind fun t2 h2 => ?_
  refine .read h2.second.read ?_
  rw [cell_parent]
  refine (h2.third.setParent (ptrUp up)).bind fun t3 h3 => ?_
  refine (h3.fourth.fourth.relink (cell_parent ..) side (some y.key)).bind fun t4 h4 => ?_
  refine (h4.third.setChild (some x.key)).bind fun t5 h5 => ?_
  refine (h5.second.setParent (some y.key)).mono fun t6 h6 => of_own side ?_
  rw [ptr_join, cells_join]
  exact h6.of_eq (by abel)

end At

theorem rotate_eq_some {s' : TreeNode ℕ (Entry K V)} (h : TreeNode.rotate side s = some s') :
    ∃ l c x m d y r, s = join side l c x (join side m d y r) ∧ s' = join side (join side l c x m) d y r := by
  cases side with
  | left =>
    rw [TreeNode.rotate, rotateLeft.eq_def] at h
    split at h
    · exact ⟨_, _, _, _, _, _, _, rfl, (some.inj h).symm⟩
    · cases h
  | right =>
    rw [TreeNode.rotate, rotateRight.eq_def] at h
    split at h
    · exact ⟨_, _, _, _, _, _, _, rfl, (some.inj h).symm⟩
    · cases h

theorem At.rotate {s' : TreeNode ℕ (Entry K V)} (h : At R s up t) (hs : TreeNode.rotate side s = some s')
    (ha : s.ptr = some a) : Yields (t.rotate side a) (At R s' up) := by
  obtain ⟨l, c, x, m, d, y, r, rfl, rfl⟩ := rotate_eq_some hs
  rw [ptr_join] at ha
  obtain rfl := some.inj ha
  exact h.rotate_join

/-! ### A node that goes -/

theorem ptr_plug (up : List (Parent ℕ (Entry K V))) (s : TreeNode ℕ (Entry K V)) :
    (plug up s).ptr = rootOf s.ptr up := by
  induction up generalizing s with
  | nil => rfl
  | cons p up ih => rw [plug, ih, ptr_parentJoin, rootOf]

theorem exists_rootOf (b : ℕ) (up : List (Parent ℕ (Entry K V))) : ∃ a, rootOf (some b) up = some a := by
  induction up generalizing b with
  | nil => exact ⟨b, rfl⟩
  | cons p up ih => exact ih p.item.key

variable {n y : TreeItem ℕ (Entry K V)} {d : Color} {right parent : Option ℕ} {b : ℕ}

theorem rounds_of_node {fuel : ℕ} (hfuel : (TreeNode.node c l x r).items.length ≤ fuel) :
    ∃ f, fuel = f + 1 ∧ l.items.length ≤ f ∧ r.items.length ≤ f := by
  rw [items, List.length_append, List.length_cons] at hfuel
  exact ⟨fuel - 1, by omega, by omega, by omega⟩

theorem treeMin_length (s : TreeNode ℕ (Entry K V)) (up : List (Parent ℕ (Entry K V))) :
    (treeMin s up).2.length + (treeMin s up).1.items.length ≤ up.length + s.items.length := by
  fun_induction treeMin s up with
  | case1 c c' l' x' r' x r up ih =>
    refine ih.trans ?_
    rw [items.eq_def (.node c _ x r), List.length_append, List.length_cons, List.length_cons]
    omega
  | case2 => exact le_rfl

variable {between : List (Parent ℕ (Entry K V))}

theorem removeNode_two {cl cr : Color} {ll rl lr rr : TreeNode ℕ (Entry K V)} {xl xr : TreeItem ℕ (Entry K V)} (hmin : treeMin (.node cr lr xr rr) [] = (.node d .null y r, between)) :
    removeNode c (.node cl ll xl rl) (.node cr lr xr rr) up =
      if d = .black then deleteFixup r (between ++ ⟨.right, c, y, .node cl ll xl rl⟩ :: up)
      else some (plug (between ++ ⟨.right, c, y, .node cl ll xl rl⟩ :: up) r) := by
  rw [removeNode, hmin] <;> nofun

/-- The two nodes, and the subtrees besides them, before the successor takes the place of the node. -/
def Parted (n y : TreeItem ℕ (Entry K V)) (c d : Color) (l r : TreeNode ℕ (Entry K V))
    (up : List (Parent ℕ (Entry K V))) (right parent : Option ℕ) (R : Multiset (ℕ × Cell K V)) (t : Links K V) : Prop :=
  Own (rootOf (some n.key) up) (cellAt n.key (cell .left n c l.ptr right (ptrUp up)) +
    (cellAt y.key (cell .left y d none r.ptr parent) +
      (cellsUp (some n.key) up + (l.cells (some n.key) + (r.cells (some y.key) + R))))) t

namespace At

theorem free {cx : Cell K V} (h : At (cellAt a cx + R) s up t) : At R s up (t.free a) := by
  have hfirst := Own.of_eq h (R := cellAt a cx + (s.cells (ptrUp up) + cellsUp s.ptr up + R)) (by abel)
  exact ⟨hfirst.root, hfirst.holds.free⟩

theorem transplant (side : Side) (h : At R (join side .null c x s) up t) :
    Yields (t.transplant x.key s.ptr) (At (cellAt x.key (cell side x c none s.ptr (ptrUp up)) + R) s up) := by
  have h0 : Own (rootOf (some x.key) up) (cellAt x.key (cell side x c none s.ptr (ptrUp up)) +
      (cellsUp (some x.key) up + (s.cells (some x.key) + R))) t := (h.own side).of_eq (by rw [ptr, cells]; abel)
  rw [Links.transplant]
  refine (h0.relink (cell_parent ..) .left s.ptr).bind fun t1 h1 => .read h1.read ?_
  rw [cell_parent]
  refine (h1.third.reparent (ptrUp up)).mono fun t2 h2 => h2.of_eq ?_
  abel

theorem replaceNode (h : Parted n y c d l r up right parent R t) (hl : l.ptr = some b) :
    Yields (t.replaceNode n.key y.key)
      (At (cellAt n.key (cell .left n c l.ptr right (ptrUp up)) + R) (.node c l y r) up) := by
  rw [Links.replaceNode, Links.transplant]
  refine .bind (P := Own (rootOf (some y.key) up) (cellAt y.key (cell .left y d none r.ptr (ptrUp up)) +
    (cellAt n.key (cell .left n c l.ptr right (ptrUp up)) +
      (cellsUp (some y.key) up + (l.cells (some n.key) + (r.cells (some y.key) + R)))))) ?_ fun t2 h2 => ?_
  · have h0 : Own (rootOf (some n.key) up) (cellAt n.key (cell .left n c l.ptr right (ptrUp up)) +
        (cellsUp (some n.key) up + (cellAt y.key (cell .left y d none r.ptr parent) +
          (l.cells (some n.key) + (r.cells (some y.key) + R))))) t := Own.of_eq h (by abel)
    refine (h0.relink (cell_parent ..) .left (some y.key)).bind fun t1 h1 => ?_
    refine .read h1.read ?_
    rw [cell_parent]
    refine (h1.third.setParent (ptrUp up)).mono fun t2 h2 => h2.of_eq ?_
    abel
  · refine .read h2.second.read ?_
    refine (h2.setChild l.ptr).bind fun t3 h3 => .read hl ?_
    have h3' := h3.fourth.reparent (some y.key)
    rw [hl] at h3'
    refine h3'.bind fun t4 h4 => .read h4.third.read ?_
    refine (h4.second.setColor c).mono fun t5 h5 => of_own .left ?_
    rw [hl]
    exact h5.of_eq (by abel)

theorem unlinkSuccessor {q : Parent ℕ (Entry K V)}
    (h : At R (.node d .null y r) (q :: between ++ { side := .right, color := c, item := n, sibling := l } :: up) t) :
    Yields (t.unlinkSuccessor n.key y.key) (Parted n y c d l (plug (q :: between) r) up (plug (q :: between) r).ptr
      (some q.item.key) R) := by
  rw [Links.unlinkSuccessor]
  refine .read (h.node_cell .left) ((transplant .left h).bind fun t1 h1 => ?_)
  obtain ⟨a, ha⟩ := exists_rootOf q.item.key between
  have hptr : (plug (q :: between) r).ptr = some a := by rw [ptr_plug, rootOf, ha]
  rw [← at_plug] at h1
  generalize plug (q :: between) r = r' at h1 hptr ⊢
  have hn : At _ (.node c l n r') up t1 := join_iff.2 h1
  have h2 : Own (rootOf (some n.key) up) (cellAt n.key (cell .left n c l.ptr r'.ptr (ptrUp up)) +
      (cellAt y.key (cell .left y d none r.ptr (some q.item.key)) + (r'.cells (some n.key) + (l.cells (some n.key) +
        (cellsUp (some n.key) up + R))))) t1 := (hn.own .left).of_eq (by rw [List.cons_append, ptrUp]; abel)
  refine .read h2.read ?_
  refine (h2.second.setChild_other r'.ptr).bind fun t2 h3 => .read hptr ?_
  have h4 := h3.third.reparent (some y.key)
  rw [hptr] at h4
  refine h4.mono fun t3 h5 => ?_
  rw [Parted, hptr]
  exact h5.of_eq (by abel)

theorem treeMin {fuel : ℕ} (h : At R s up t) (hfuel : s.items.length ≤ fuel) (ha : s.ptr = some a) :
    t.treeMin fuel a = (Map.treeMin s up).1.ptr ∧ At R (Map.treeMin s up).1 (Map.treeMin s up).2 t := by
  fun_induction Map.treeMin s up generalizing fuel a with
  | case1 c c' l' x' r' x r up ih =>
    obtain rfl := some.inj ha
    obtain ⟨fuel, rfl, hl, -⟩ := rounds_of_node hfuel
    obtain ⟨hmin, hat⟩ := ih (join_iff (p := ⟨.left, c, x, r⟩).1 h) hl rfl
    refine ⟨?_, hat⟩
    rw [Links.treeMin, h.node_cell .left]
    exact hmin
  | case2 s up hleaf =>
    obtain ⟨c, l, x, r, rfl, rfl⟩ := exists_of_ptr ha
    refine ⟨?_, h⟩
    obtain ⟨fuel, rfl, -, -⟩ := rounds_of_node hfuel
    rw [Links.treeMin, h.node_cell .left]
    cases l with
    | null => rfl
    | node c' l' x' r' => exact absurd rfl (hleaf c c' l' x' r' x r)

theorem replaceBySuccessor
    (h : At R (.node d .null y r) (between ++ ⟨.right, c, n, l⟩ :: up) t) (hl : l.ptr = some b) :
    Yields (if ptrUp (between ++ ⟨.right, c, n, l⟩ :: up) = some n.key then
        (t.replaceNode n.key y.key).map fun t => (t, r.ptr, some y.key, d)
      else (t.unlinkSuccessor n.key y.key).bind fun t =>
        (t.replaceNode n.key y.key).map fun t => (t, r.ptr, ptrUp (between ++ ⟨.right, c, n, l⟩ :: up), d))
      fun o => o.2 = (r.ptr, ptrUp (between ++ ⟨.right, c, y, l⟩ :: up), d) ∧
        ∃ cn, At (cellAt n.key cn + R) r (between ++ ⟨.right, c, y, l⟩ :: up) o.1 := by
  cases between with
  | nil =>
    have hn : At R (.node c l n (.node d .null y r)) up t := join_iff.2 h
    have hparted : Parted n y c d l r up (some y.key) (some n.key) R t := by
      refine (hn.own .left).of_eq ?_
      rw [cells.eq_def (some n.key) (.node d .null y r)]
      dsimp only [ptr, cells]
      abel
    rw [List.nil_append, List.nil_append, ptrUp, if_pos rfl]
    exact (replaceNode hparted hl).map fun t1 h1 => ⟨rfl, _, join_iff.1 h1⟩
  | cons q between =>
    have hne : some q.item.key ≠ some n.key := fun he =>
      (join_iff.2 h).parent_ne (p := ⟨.right, c, n, l⟩) ptr_parentJoin (by simp) (some.inj he).symm
    rw [List.cons_append, List.cons_append, ptrUp, if_neg hne]
    refine h.unlinkSuccessor.bind fun t1 h1 => (replaceNode h1 hl).map fun t2 h2 => ?_
    exact ⟨rfl, _, (at_plug r (q :: between) _).1 (join_iff.1 h2)⟩

/-- **`tree_del` until the node is freed**: `x` and `x_parent` are where `delete_fixup` begins. -/
theorem unlink {fuel : ℕ} (h : At R (.node c l n r) up t) (hfuel : r.items.length ≤ fuel) :
    Yields (t.unlink fuel n.key) fun o => ∃ s up' cn, o.2.1 = s.ptr ∧ o.2.2.1 = ptrUp up' ∧
      At (cellAt n.key cn + R) s up' o.1 ∧ up'.length ≤ up.length + r.items.length ∧
      Map.removeNode c l r up = if o.2.2.2 = .black then Map.deleteFixup s up' else some (plug up' s) := by
  rw [Links.unlink]
  refine .read (h.node_cell .left) ?_
  cases l with
  | null => exact (transplant .left h).map fun t1 h1 => ⟨r, up, _, rfl, rfl, h1, Nat.le_add_right .., rfl⟩
  | node cl ll xl rl =>
    cases r with
    | null => exact (transplant .right h).map fun t1 h1 => ⟨_, up, _, rfl, rfl, h1, Nat.le_add_right .., rfl⟩
    | node cr lr xr rr =>
      obtain ⟨hmin, hat⟩ := (join_iff (p := ⟨.right, c, n, .node cl ll xl rl⟩).1 h).treeMin hfuel rfl
      obtain ⟨d, y, r, hy⟩ := treeMin_node (.node cr lr xr rr) [] nofun
      obtain ⟨between, hfind⟩ : ∃ between, Map.treeMin (.node cr lr xr rr) [] = (.node d .null y r, between) :=
        ⟨_, Prod.ext hy rfl⟩
      have hlength := treeMin_length (.node cr lr xr rr) []
      rw [hfind, items.eq_def (.node d _ y r), List.length_append, List.length_cons, List.length_nil] at hlength
      dsimp only at hlength
      rw [treeMin_append, hfind] at hmin hat
      rw [removeNode_two hfind]
      replace hat : At R (.node d .null y r) (between ++ ⟨.right, c, n, .node cl ll xl rl⟩ :: up) t := hat
      refine .read hmin (.read (hat.node_cell .left) ?_)
      rw [cell_parent, cell_color]
      refine (hat.replaceBySuccessor rfl).mono fun o ho => ?_
      obtain ⟨t1, o⟩ := o
      obtain ⟨rfl, cn, h1⟩ := ho
      refine ⟨r, _, cn, rfl, rfl, h1, ?_, rfl⟩
      rw [List.length_append, List.length_cons]
      omega

end At

end Libx.Map
