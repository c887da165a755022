import Libx.Map.LinkedTree

/-!
# Libx.Map.LinkedFixup — the fixups on the pointers

Where the fixups of `Libx.Map.Tree` have a tree, the fixups of the pointers make the pointers of that tree.
-/

namespace Libx.Map

open Libx.Core (Yields)
open TreeNode Option

variable {K V : Type} {side : Side} {s s' x z l r : TreeNode ℕ (Entry K V)} {y : TreeItem ℕ (Entry K V)} {c : Color}
  {p g : Parent ℕ (Entry K V)} {up : List (Parent ℕ (Entry K V))} {R : Multiset (ℕ × Cell K V)} {t : Links K V}
  {near far par : Option ℕ} {a fuel : ℕ}

/-! ### A node as its parent sees it -/

theorem cell_side (hne : far ≠ near) :
    (if (cell side y c near far par).left = near then Side.left else Side.right) = side := by
  cases side
  · exact if_pos rfl
  · exact if_neg hne

theorem exists_join_of_isRed (side : Side) (h : s.isRed = true) : ∃ l x r, s = join side l .red x r := by
  cases s with
  | null => cases h
  | node c l x r =>
    cases c with
    | black => cases h
    | red =>
      cases side
      · exact ⟨l, x, r, rfl⟩
      · exact ⟨r, x, l, rfl⟩

theorem split_join : (join side l c y r).split side = some ⟨c, l, y, r⟩ := by
  cases side <;> rfl

variable {w : Split ℕ (Entry K V)}

theorem split_eq_some (h : s.split side = some w) :
    s = join side w.near w.color w.item w.far := by
  cases s with
  | null => cases side <;> cases h
  | node c l x r =>
    cases side
    · cases h; rfl
    · cases h; rfl

theorem rotate_other (side : Side) (l : TreeNode ℕ (Entry K V)) (c : Color) (y : TreeItem ℕ (Entry K V))
    (m : TreeNode ℕ (Entry K V)) (d : Color) (z : TreeItem ℕ (Entry K V)) (r : TreeNode ℕ (Entry K V)) :
    TreeNode.rotate side.other (join side (join side l c y m) d z r) = some (join side l c y (join side m d z r)) := by
  cases side <;> rfl

theorem black_of_ne (h : c ≠ .red) : c = .black := by
  cases c
  · rfl
  · exact absurd rfl h

theorem deleteCase1_eq (hsib : p.sibling.isRed = false) (up : List (Parent ℕ (Entry K V))) :
    deleteCase1 p up = (p, up) := by
  rw [deleteCase1]
  split
  · next hsplit =>
    rw [split_eq_some hsplit, isRed_join] at hsib
    cases hsib
  · rfl

theorem deleteCase1_side (p : Parent ℕ (Entry K V)) (up : List (Parent ℕ (Entry K V))) :
    (deleteCase1 p up).1.side = p.side ∧ (deleteCase1 p up).1.item = p.item := by
  rw [deleteCase1]
  split
  · exact ⟨rfl, rfl⟩
  · exact ⟨rfl, rfl⟩

namespace At

theorem isRed_near (h : At R (join side l c y r) up t) : t.isRed l.ptr = some l.isRed :=
  (join_iff (p := ⟨side, c, y, r⟩).1 h).isRed

theorem isRed_far (h : At R (join side l c y r) up t) : t.isRed r.ptr = some r.isRed := by
  rw [← join_other] at h
  exact h.isRed_near

theorem whole (h : At R s up t) : At R (plug up s) [] t := (at_plug s up []).2 (by rwa [List.append_nil])

theorem root_eq (h : At R s up t) : t.root = (plug up s).ptr := h.whole.root

theorem blackenRoot (h : At R s up t) (hs : s.ptr = some a) :
    Yields t.blackenRoot (At R ((plug up s).recolor .black) []) := by
  obtain ⟨b, hb⟩ := exists_rootOf a up
  have hptr : (plug up s).ptr = some b := by rw [ptr_plug, hs, hb]
  rw [Links.blackenRoot]
  exact .read (h.root_eq.trans hptr) (h.whole.setColor hptr .black)

/-! ### After an insertion -/

theorem isRed_parent (h : At R s (p :: up) t) : t.isRed (some p.item.key) = some (decide (p.color = .red)) := by
  have hp := (join_iff.2 h).isRed
  rwa [ptr_parentJoin, Parent.join, isRed_join] at hp

theorem insertFixup_exit (h : At R z up t) (hz : z.ptr = some a) (hblack : ∀ p ∈ up.head?, p.color = .black) :
    Yields (t.insertFixup (fuel + 1) a) (At R ((plug up z).recolor .black) []) := by
  obtain ⟨c, l, y, r, rfl, rfl⟩ := exists_of_ptr hz
  have hparent : t.isRed (ptrUp up) = some false := by
    cases up with
    | nil => rfl
    | cons p up =>
      rw [ptrUp, h.isRed_parent, hblack p rfl]
      rfl
  rw [Links.insertFixup]
  refine .read (h.node_cell .left) ?_
  rw [cell_parent]
  refine .read hparent ?_
  rw [if_neg (by simp)]
  exact h.blackenRoot hz

theorem insertFixup_red {Q : Links K V → Prop} (h : At R z (p :: g :: up) t) (hz : z.ptr = some a) (hc : p.color = .red)
    (hround : Yields (if g.sibling.isRed = true then
        (t.insertCase1 p.item.key g.item.key g.sibling.ptr).bind fun t => t.insertFixup fuel g.item.key
      else (t.insertCase2 g.side a).bind fun o =>
        (o.1.insertCase3 g.side o.2).bind fun t => t.insertFixup fuel o.2) Q) :
    Yields (t.insertFixup (fuel + 1) a) Q := by
  obtain ⟨cz, lz, yz, rz, rfl, rfl⟩ := exists_of_ptr hz
  rw [Links.insertFixup]
  refine .read (h.node_cell .left) ?_
  rw [cell_parent]
  refine .read h.isRed_parent ?_
  rw [if_pos (decide_eq_true hc)]
  refine .read rfl (.read h.parent_cell ?_)
  rw [cell_parent]
  refine .read rfl (.read (join_iff.2 h).parent_cell ?_)
  dsimp only
  rw [ptr_parentJoin, cell_side ((join_iff.2 h).ptr_ne ptr_parentJoin), cell_child_other]
  exact .read (join_iff.2 h).flip.isRed hround

theorem insertCase1 (h : At R z (p :: g :: up) t) (hred : g.sibling.isRed = true) :
    Yields (t.insertCase1 p.item.key g.item.key g.sibling.ptr)
      (At R (join g.side ((p.join z).recolor .black) .red g.item (g.sibling.recolor .black)) up) := by
  obtain ⟨l, y, r, hu⟩ := exists_join_of_isRed .left hred
  have hptr : g.sibling.ptr = some y.key := by rw [hu, ptr_join]
  rw [Links.insertCase1]
  refine (h.setColor_parent .black).bind fun t1 h1 => .read hptr ?_
  refine ((join_iff.2 h1).setColor_sibling hptr .black).bind fun t2 h2 => (h2.setColor_parent .red).mono fun t3 h3 => ?_
  rw [Parent.join, recolor_join]
  exact join_iff.2 h3

theorem insertCase2 {q : TreeNode ℕ (Entry K V)} (h : At R z (p :: g :: up) t) (hz : z.ptr = some a)
    (hq : (if p.side = g.side then some (p.join z) else TreeNode.rotate g.side (p.join z)) = some q) :
    Yields (t.insertCase2 g.side a) fun o =>
      ∃ z' d y b, z'.ptr = some o.2 ∧ q = join g.side z' d y b ∧ At R q (g :: up) o.1 := by
  obtain ⟨c, l, y, r, rfl, rfl⟩ := exists_of_ptr hz
  rw [Links.insertCase2]
  refine .read (h.node_cell .left) ?_
  rw [cell_parent, ptrUp]
  refine .read rfl (.read h.parent_cell ?_)
  by_cases hside : p.side = g.side
  · rw [if_pos hside] at hq
    obtain rfl := some.inj hq
    rw [← hside, cell_child_other, if_neg (h.ptr_ne hz)]
    exact .some ⟨_, p.color, p.item, p.sibling, hz, rfl, join_iff.2 h⟩
  · rw [if_neg hside] at hq
    have hother : g.side.other = p.side := by
      cases hg : g.side <;> cases hp : p.side <;> simp_all [Side.other]
    rw [hother, cell_child, if_pos hz]
    refine ((join_iff.2 h).rotate hq ptr_parentJoin).map fun t1 h1 => ?_
    obtain ⟨l', c', x', m', d', y', r', hjoin, rfl⟩ := rotate_eq_some hq
    have hptr := congrArg TreeNode.ptr hjoin
    rw [ptr_parentJoin, ptr_join] at hptr
    exact ⟨_, d', y', r', by rw [ptr_join, hptr], rfl, h1⟩

theorem insertCase3 {b : TreeNode ℕ (Entry K V)} {d : Color} (h : At R (join g.side z d y b) (g :: up) t)
    (hz : z.ptr = some a) :
    Yields (t.insertCase3 g.side a)
      (At R z (⟨g.side, .black, y, join g.side b .red g.item g.sibling⟩ :: up)) := by
  have hfocus : At R z (⟨g.side, d, y, b⟩ :: g :: up) t := join_iff.1 h
  obtain ⟨cz, lz, yz, rz, rfl, rfl⟩ := exists_of_ptr hz
  rw [Links.insertCase3]
  refine .read (hfocus.node_cell .left) ?_
  rw [cell_parent]
  refine .read rfl ((hfocus.setColor_parent .black).bind fun t1 h1 => .read h1.parent_cell ?_)
  rw [cell_parent]
  refine .read rfl (((join_iff.2 h1).setColor_parent .red).bind fun t2 h2 => ?_)
  exact ((join_iff.2 h2).rotate (rotate_other ..) ptr_parentJoin).mono fun t3 h3 => join_iff.1 h3

/-- **`insert_fixup`** does on the pointers what it does on the tree. -/
theorem insertFixup (h : At R z up t) (hz : z.ptr = some a) (hfuel : up.length < fuel)
    (hs : Map.insertFixup z up = some s) :
    Yields (t.insertFixup fuel a) (At R s []) := by
  fun_induction Map.insertFixup z up generalizing t a fuel with
  | case1 z =>
    obtain rfl := some.inj hs
    obtain ⟨fuel, rfl⟩ : ∃ f, fuel = f + 1 := ⟨fuel - 1, by omega⟩
    exact h.insertFixup_exit hz (by simp)
  | case2 => cases hs
  | case3 z p hc =>
    obtain rfl := some.inj hs
    obtain ⟨fuel, rfl⟩ : ∃ f, fuel = f + 1 := ⟨fuel - 1, by omega⟩
    exact h.insertFixup_exit hz (by simpa using black_of_ne hc)
  | case4 z p g up hc huncle ih =>
    obtain ⟨fuel, rfl⟩ : ∃ f, fuel = f + 1 := ⟨fuel - 1, by omega⟩
    refine h.insertFixup_red hz hc ?_
    rw [if_pos huncle]
    refine (h.insertCase1 huncle).bind fun t1 h1 => ih h1 ptr_join ?_ hs
    simp only [List.length_cons] at hfuel
    omega
  | case5 z p g up hc huncle =>
    obtain ⟨fuel, rfl⟩ : ∃ f, fuel = f + 2 := ⟨fuel - 2, by simp only [List.length_cons] at hfuel; omega⟩
    obtain ⟨q, hq, hs⟩ := bind_eq_some_iff.1 hs
    obtain ⟨s', hrot, rfl⟩ := map_eq_some_iff.1 hs
    refine h.insertFixup_red hz hc ?_
    rw [if_neg huncle]
    refine (h.insertCase2 hz hq).bind fun o ho => ?_
    obtain ⟨z', d, y, b, hz', rfl, h1⟩ := ho
    refine (h1.insertCase3 hz').bind fun t2 h2 => ?_
    rw [recolor_join, rotate_other] at hrot
    obtain rfl := some.inj hrot
    exact h2.insertFixup_exit hz' (by simp)
  | case6 z p g up hc =>
    obtain rfl := some.inj hs
    obtain ⟨fuel, rfl⟩ : ∃ f, fuel = f + 1 := ⟨fuel - 1, by omega⟩
    exact h.insertFixup_exit hz (by simpa using black_of_ne hc)

/-! ### After a deletion -/

theorem deleteCase1 (h : At R x (p :: up) t) :
    Yields (t.deleteCase1 p.side p.item.key) fun o =>
      At R x ((Map.deleteCase1 p up).1 :: (Map.deleteCase1 p up).2) o.1 ∧
        o.2 = (Map.deleteCase1 p up).1.sibling.ptr := by
  rw [Links.deleteCase1]
  refine .read h.parent_cell ?_
  rw [cell_child_other]
  refine .read h.flip.isRed ?_
  cases hred : p.sibling.isRed with
  | false =>
    rw [deleteCase1_eq hred, if_neg nofun]
    exact .some ⟨h, rfl⟩
  | true =>
    obtain ⟨near, y, far, hsib⟩ := exists_join_of_isRed p.side hred
    have hptr : p.sibling.ptr = some y.key := by rw [hsib, ptr_join]
    have hcase1 : Map.deleteCase1 p up = ({ p with color := .red, sibling := near },
        { side := p.side, color := .black, item := y, sibling := far } :: up) := by
      rw [Map.deleteCase1, hsib, split_join]
    rw [hcase1, if_pos rfl]
    refine .read hptr ((h.setColor_sibling hptr .black).bind fun t1 h1 => ?_)
    refine (h1.setColor_parent .red).bind fun t2 h2 => ?_
    have hrotate := join_iff.2 h2
    rw [hsib, recolor_join] at hrotate
    refine (At.rotate_join hrotate).bind fun t3 h3 => ?_
    have hfocus : At R x ({ p with color := .red, sibling := near } ::
        { side := p.side, color := .black, item := y, sibling := far } :: up) t3 := join_iff.1 (join_iff.1 h3)
    refine .read hfocus.parent_cell (.some ⟨hfocus, ?_⟩)
    rw [cell_child_other]

theorem deleteCase3 (h : At R x (p :: up) t) (hw : p.sibling.split p.side = some w)
    (hs : (if w.far.isRed then some p.sibling
      else TreeNode.rotate p.side.other (join p.side (w.near.recolor .black) .red w.item w.far)) = some s) :
    Yields (t.deleteCase3 p.side p.item.key w.item.key) fun o =>
      At R x ({ p with sibling := s } :: up) o.1 ∧ o.2 = s.ptr := by
  have hsib := split_eq_some hw
  have hflip := h.flip
  rw [hsib] at hflip
  rw [Links.deleteCase3]
  refine .read (hflip.node_cell p.side) ?_
  rw [cell_child, cell_child_other]
  refine .read hflip.isRed_far ?_
  by_cases hfar : w.far.isRed = true
  · rw [if_pos hfar] at hs ⊢
    obtain rfl := some.inj hs
    exact .some ⟨h, by rw [hsib, ptr_join]⟩
  · rw [if_neg hfar] at hs ⊢
    have hnear : At R w.near (⟨p.side, w.color, w.item, w.far⟩ :: ⟨p.side.other, p.color, p.item, x⟩ :: up) t :=
      join_iff.1 hflip
    refine hnear.blacken.bind fun t1 h1 => (h1.setColor_parent .red).bind fun t2 h2 => ?_
    refine ((join_iff.2 h2).rotate hs ptr_parentJoin).bind fun t3 h3 => ?_
    have hback := h3.flip
    rw [Side.other_other] at hback
    refine .read hback.parent_cell (.some ⟨hback, ?_⟩)
    rw [cell_child_other]

theorem deleteCase4 (h : At R x (p :: up) t) (hw : p.sibling.split p.side = some w)
    (hs : TreeNode.rotate p.side (join p.side x .black p.item
      (join p.side w.near p.color w.item (w.far.recolor .black))) = some s) :
    Yields (t.deleteCase4 p.side p.item.key w.item.key) (At R s up) := by
  have hsib := split_eq_some hw
  have hptr : p.sibling.ptr = some w.item.key := by rw [hsib, ptr_join]
  rw [Links.deleteCase4]
  refine .read h.parent_cell ?_
  rw [cell_color]
  refine (h.setColor_sibling hptr p.color).bind fun t1 h1 => (h1.setColor_parent .black).bind fun t2 h2 => ?_
  have hflip := h2.flip
  rw [hsib, recolor_join] at hflip
  refine .read (hflip.node_cell p.side) ?_
  rw [cell_child_other]
  rw [← join_other] at hflip
  have hfar : At R w.far (⟨p.side.other, p.color, w.item, w.near⟩ :: ⟨p.side.other, .black, p.item, x⟩ :: up) t2 :=
    join_iff.1 hflip
  refine hfar.blacken.bind fun t3 h3 => ?_
  have hback := (join_iff.2 h3).flip
  dsimp only [Parent.join] at hback
  rw [Side.other_other, join_other] at hback
  exact (join_iff.2 hback).rotate hs ptr_parentJoin

theorem ptr_ne_root (h : At R x (p :: up) t) : x.ptr ≠ t.root := by
  rw [h.root_eq, ptr_plug, rootOf]
  cases hx : x.ptr with
  | none =>
    obtain ⟨b, hb⟩ := exists_rootOf p.item.key up
    rw [hb]
    simp
  | some a =>
    obtain ⟨q, hq, hroot⟩ := rootOf_eq p up
    rw [hroot]
    exact fun he => h.parent_ne hx hq (some.inj he).symm

theorem deleteFixup_exit (h : At R s up t) (fuel : ℕ) (xParent : Option ℕ) :
    Yields (t.deleteFixup (fuel + 1) t.root xParent) (At R ((plug up s).recolor .black) []) := by
  rw [Links.deleteFixup]
  refine .read (if_pos rfl) ?_
  rw [if_pos rfl, h.root_eq]
  exact h.whole.blacken

theorem deleteFixup_round {Q : Links K V → Prop} (h : At R x (p :: up) t)
    (hr : ¬ x.isRed = true)
    (hsplit : (Map.deleteCase1 p up).1.sibling.split p.side = some w)
    (hround : ∀ t1, At R x ((Map.deleteCase1 p up).1 :: (Map.deleteCase1 p up).2) t1 →
      Yields (if (w.near.isRed || w.far.isRed) = true then
          (t1.deleteCase3 p.side p.item.key w.item.key).bind fun o => o.2.bind fun w =>
            (o.1.deleteCase4 p.side p.item.key w).bind fun t => t.deleteFixup fuel t.root (some p.item.key)
        else (t1.setColor w.item.key .red).bind fun t => (t.nodes p.item.key).bind fun cp =>
          t.deleteFixup fuel (some p.item.key) cp.parent) Q) :
    Yields (t.deleteFixup (fuel + 1) x.ptr (ptrUp (p :: up))) Q := by
  have hne : p.sibling.ptr ≠ x.ptr := by
    cases hb : p.sibling.ptr with
    | none =>
      have hnull := ptr_eq_none hb
      rw [deleteCase1_eq (by rw [hnull]; rfl), hnull] at hsplit
      cases hside : p.side <;> rw [hside] at hsplit <;> cases hsplit
    | some b => exact (h.flip.ptr_ne hb).symm
  rw [Links.deleteFixup, if_neg h.ptr_ne_root]
  refine .read h.isRed ?_
  rw [if_neg hr]
  refine .read rfl (.read h.parent_cell ?_)
  rw [cell_side hne]
  refine h.deleteCase1.bind fun o ho => ?_
  obtain ⟨h1, hw⟩ := ho
  have hsib := split_eq_some hsplit
  have hflip := h1.flip
  rw [hsib] at hflip
  rw [hsib, ptr_join] at hw
  refine .read hw (.read (hflip.node_cell p.side) ?_)
  rw [cell_child, cell_child_other]
  exact .read hflip.isRed_near (.read hflip.isRed_far (hround _ h1))

/-- **`delete_fixup`** does on the pointers what it does on the tree. -/
theorem deleteFixup (h : At R x up t) (hfuel : if x.isRed then 0 < fuel else up.length < fuel)
    (hs : Map.deleteFixup x up = some s) : Yields (t.deleteFixup fuel x.ptr (ptrUp up)) (At R s []) := by
  fun_induction Map.deleteFixup x up generalizing t fuel with
  | case1 x =>
    obtain rfl := some.inj hs
    obtain ⟨fuel, rfl⟩ : ∃ f, fuel = f + 1 := ⟨fuel - 1, by split at hfuel <;> omega⟩
    have hexit := h.deleteFixup_exit fuel none
    rwa [h.root_eq] at hexit
  | case2 x p up hr =>
    obtain rfl := some.inj hs
    rw [if_pos hr] at hfuel
    obtain ⟨fuel, rfl⟩ : ∃ f, fuel = f + 1 := ⟨fuel - 1, by omega⟩
    rw [Links.deleteFixup, if_neg h.ptr_ne_root]
    refine .read h.isRed ?_
    rw [if_pos hr]
    exact h.blacken.mono fun t1 h1 => h1.whole
  | case3 => cases hs
  | case4 x p up hr w hsplit hred =>
    rw [if_neg hr, List.length_cons] at hfuel
    obtain ⟨fuel, rfl⟩ : ∃ f, fuel = f + 2 := ⟨fuel - 2, by omega⟩
    obtain ⟨s', hcase4, rfl⟩ := map_eq_some_iff.1 hs
    obtain ⟨u, hu, hcase4⟩ := bind_eq_some_iff.1 hcase4
    obtain ⟨w', hw', hrotate⟩ := bind_eq_some_iff.1 hcase4
    obtain ⟨hside, hitem⟩ := deleteCase1_side p up
    refine h.deleteFixup_round hr hsplit fun t1 h1 => ?_
    rw [if_pos hred, ← hside, ← hitem]
    rw [← hside] at hsplit
    refine (h1.deleteCase3 hsplit hu).bind fun o ho => ?_
    obtain ⟨h2, hptr⟩ := ho
    have hsib := split_eq_some hw'
    rw [hsib, ptr_join] at hptr
    refine .read hptr ((h2.deleteCase4 hw' hrotate).bind fun t3 h3 => h3.deleteFixup_exit fuel _)
  | case5 x p up hr w hsplit hred ih =>
    rw [if_neg hr, List.length_cons] at hfuel
    obtain ⟨fuel, rfl⟩ : ∃ f, fuel = f + 1 := ⟨fuel - 1, by omega⟩
    obtain ⟨hside, hitem⟩ := deleteCase1_side p up
    refine h.deleteFixup_round hr hsplit fun t1 h1 => ?_
    have hptr : (Map.deleteCase1 p up).1.sibling.ptr = some w.item.key := by rw [split_eq_some hsplit, ptr_join]
    rw [if_neg hred]
    refine (h1.setColor_sibling hptr .red).bind fun t2 h2 => ?_
    rw [← hitem]
    refine .read h2.parent_cell ?_
    rw [cell_parent]
    have h3 := join_iff.2 h2
    rw [Parent.join, hside, hitem] at h3
    -- A parent that case 1 has made red ends the loop.
    have hrounds : if (join p.side x (Map.deleteCase1 p up).1.color p.item
        ((Map.deleteCase1 p up).1.sibling.recolor .red)).isRed = true then 0 < fuel
        else (Map.deleteCase1 p up).2.length < fuel := by
      rw [isRed_join]
      split
      · omega
      · next hblack =>
        obtain hlen | ⟨-, hcolor⟩ := deleteCase1_length p up
        · omega
        · exact absurd (decide_eq_true hcolor) hblack
    have hnext := ih h3 hrounds hs
    rwa [ptr_join, ← hitem] at hnext

end At

end Libx.Map
