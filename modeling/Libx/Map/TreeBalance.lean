import Libx.Map.Tree

/-!
# Libx.Map.TreeBalance — the fixups of the red-black tree
-/

namespace Libx.Map

open TreeNode

variable {K V : Type}

/-! ### From left to right -/

def TreeNode.items : TreeNode K V → List (TreeItem K V)
  | .null => []
  | .node _ l x r => l.items ++ x :: r.items

/-- What is to the left of a node, by its parents. -/
def before : List (Parent K V) → List (TreeItem K V)
  | [] => []
  | p :: up => before up ++ match p.side with
    | .left => []
    | .right => p.sibling.items ++ [p.item]

def after : List (Parent K V) → List (TreeItem K V)
  | [] => []
  | p :: up => (match p.side with
    | .left => p.item :: p.sibling.items
    | .right => []) ++ after up

theorem items_join (side : Side) (t : TreeNode K V) (c : Color) (x : TreeItem K V) (s : TreeNode K V) :
    (join side t c x s).items = match side with
      | .left => t.items ++ x :: s.items
      | .right => s.items ++ x :: t.items := by
  cases side <;> rfl

theorem items_plug (up : List (Parent K V)) (t : TreeNode K V) : (plug up t).items = before up ++ t.items ++ after up := by
  induction up generalizing t with
  | nil => rw [plug, before, after, List.nil_append, List.append_nil]
  | cons p up ih =>
    rw [plug, ih, Parent.join, items_join, before, after]
    cases p.side <;> simp

@[simp] theorem items_recolor (c : Color) (t : TreeNode K V) : (t.recolor c).items = t.items := by
  cases t <;> rfl

theorem plug_items (up : List (Parent K V)) {t t' : TreeNode K V} (h : t.items = t'.items) :
    (plug up t).items = (plug up t').items := by
  rw [items_plug, items_plug, h]

/-! ### Black heights -/

/-- **The red-black tree of a black height**: no child of a red node is red. -/
inductive Rb : ℕ → TreeNode K V → Prop
  | null : Rb 0 .null
  | red {n : ℕ} {l r : TreeNode K V} {x : TreeItem K V} : Rb n l → Rb n r → l.isRed = false → r.isRed = false →
      Rb n (.node .red l x r)
  | black {n : ℕ} {l r : TreeNode K V} {x : TreeItem K V} : Rb n l → Rb n r → Rb (n + 1) (.node .black l x r)

/-- The parents leave a place for a tree of a black height; a red one has a black one above it. -/
inductive RbUp : ℕ → List (Parent K V) → Prop
  | root {n : ℕ} : RbUp n []
  | red {n : ℕ} {p g : Parent K V} {up : List (Parent K V)} : p.color = .red → Rb n p.sibling → p.sibling.isRed = false →
      g.color = .black → RbUp n (g :: up) → RbUp n (p :: g :: up)
  | black {n : ℕ} {p : Parent K V} {up : List (Parent K V)} : p.color = .black → Rb n p.sibling → RbUp (n + 1) up →
      RbUp n (p :: up)

def RedOk (t : TreeNode K V) (up : List (Parent K V)) : Prop :=
  t.isRed = true → ∃ g up', up = g :: up' ∧ g.color = .black

variable {n : ℕ} {side : Side} {t s x z : TreeNode K V} {y : TreeItem K V} {p : Parent K V} {up : List (Parent K V)}

theorem Rb.join_red (ht : Rb n t) (hs : Rb n s) (htr : t.isRed = false) (hsr : s.isRed = false) :
    Rb n (join side t .red y s) := by
  cases side with
  | left => exact .red ht hs htr hsr
  | right => exact .red hs ht hsr htr

theorem Rb.join_black (ht : Rb n t) (hs : Rb n s) : Rb (n + 1) (join side t .black y s) := by
  cases side with
  | left => exact .black ht hs
  | right => exact .black hs ht

theorem Rb.recolor_black (h : Rb n t) : ∃ m, Rb m (t.recolor .black) := by
  cases h with
  | null => exact ⟨0, .null⟩
  | red hl hr | black hl hr => exact ⟨_, .black hl hr⟩

theorem Rb.recolor_black_of_red (h : Rb n t) (hr : t.isRed = true) : Rb (n + 1) (t.recolor .black) := by
  cases h with
  | red h1 h2 => exact .black h1 h2
  | _ => cases hr

theorem isRed_recolor_black (t : TreeNode K V) : (t.recolor .black).isRed = false := by
  cases t <;> rfl

theorem Rb.plug (h : Rb n t) (hup : RbUp n up) (hred : RedOk t up) : ∃ m, Rb m (plug up t) := by
  induction hup generalizing t with
  | root => exact ⟨_, h⟩
  | red hc hs hsr hg hup ih =>
    have ht : t.isRed = false := by
      by_contra hr
      obtain ⟨g, up, he, hg⟩ := hred (by simpa using hr)
      cases he
      rw [hc] at hg
      cases hg
    refine ih (t := Parent.join _ t) ?_ fun _ => ⟨_, _, rfl, hg⟩
    rw [Parent.join, hc]
    exact h.join_red hs ht hsr
  | black hc hs hup ih =>
    refine ih (t := Parent.join _ t) ?_ fun hr => ?_
    · rw [Parent.join, hc]
      exact h.join_black hs
    · rw [Parent.join, isRed_join, hc] at hr
      cases hr

theorem RbUp.plug_isRed (hup : RbUp n up) (hne : up ≠ []) (t : TreeNode K V) : (Map.plug up t).isRed = false := by
  induction hup generalizing t with
  | root => exact absurd rfl hne
  | red hc hs hsr hg hup ih => exact ih nofun _
  | @black n p up hc hs hup ih =>
    cases up with
    | nil =>
      rw [Map.plug, Map.plug, Parent.join, isRed_join, hc]
      rfl
    | cons g up => exact ih nofun _

/-- What a fixup makes of a tree: it is balanced, and has the same nodes in the same order. -/
structure Fixed (items : List (TreeItem K V)) (t : TreeNode K V) : Prop where
  rb : ∃ m, Rb m t
  root : t.isRed = false
  items : t.items = items

theorem Rb.fixed (h : Rb n t) (hup : RbUp n up) (hred : RedOk t up) :
    Fixed (before up ++ t.items ++ after up) ((Map.plug up t).recolor .black) := by
  obtain ⟨m, hm⟩ := h.plug hup hred
  exact ⟨hm.recolor_black, isRed_recolor_black _, by rw [items_recolor, items_plug]⟩

/-! ### After an insertion -/

theorem Rb.children_of_red (h : Rb n (.node .red t y s)) :
    Rb n t ∧ Rb n s ∧ t.isRed = false ∧ s.isRed = false := by
  cases h with
  | red h1 h2 h3 h4 => exact ⟨h1, h2, h3, h4⟩

theorem insertCase3 {p g : Parent K V} (hz : Rb n z) (hzr : z.isRed = true) (hp : Rb n p.sibling)
    (hpr : p.sibling.isRed = false) (hpc : p.color = .red) (hg : Rb n g.sibling) (hgr : g.sibling.isRed = false) :
    ∃ q t, (if p.side = g.side then some (p.join z) else rotate g.side (p.join z)) = some q ∧
      rotate g.side.other (join g.side (q.recolor .black) .red g.item g.sibling) = some t ∧
      Rb (n + 1) t ∧ t.isRed = false ∧ t.items = (g.join (p.join z)).items := by
  cases z with
  | null => cases hzr
  | node c zl zx zr =>
    obtain rfl : c = .red := by
      cases c
      · cases hzr
      · rfl
    obtain ⟨hl, hr, hlr, hrr⟩ := hz.children_of_red
    obtain ⟨ps, pc, px, pt⟩ := p
    obtain ⟨gs, gc, gx, gt⟩ := g
    obtain rfl : pc = .red := hpc
    cases ps <;> cases gs
    · exact ⟨_, _, rfl, rfl, .black (.red hl hr hlr hrr) (.red hp hg hpr hgr), rfl, by simp [Parent.join, join, items]⟩
    · exact ⟨_, _, rfl, rfl, .black (.red hg hl hgr hlr) (.red hr hp hrr hpr), rfl, by simp [Parent.join, join, items]⟩
    · exact ⟨_, _, rfl, rfl, .black (.red hp hl hpr hlr) (.red hr hg hrr hgr), rfl, by simp [Parent.join, join, items]⟩
    · exact ⟨_, _, rfl, rfl, .black (.red hg hp hgr hpr) (.red hl hr hlr hrr), rfl, by simp [Parent.join, join, items]⟩

theorem recolor_join (c c' : Color) : (join side t c y s).recolor c' = join side t c' y s := by
  cases side <;> rfl

variable {l r : TreeNode K V}

theorem RbUp.of_red {p g : Parent K V} (hup : RbUp n (p :: g :: up)) (hc : p.color = .red) :
    Rb n p.sibling ∧ p.sibling.isRed = false ∧ g.color = .black ∧ Rb n g.sibling ∧ RbUp (n + 1) up := by
  cases hup with
  | black hb => rw [hc] at hb; cases hb
  | red _ hs hsr hg hup =>
    cases hup with
    | red hb => rw [hg] at hb; cases hb
    | black _ hgs hup => exact ⟨hs, hsr, hg, hgs, hup⟩

theorem insertFixup_spec (hz : Rb n z) (hzr : z.isRed = true) (hup : RbUp n up) :
    ∃ t, insertFixup z up = some t ∧ Fixed (before up ++ z.items ++ after up) t := by
  fun_induction insertFixup z up generalizing n with
  | case1 z =>
    exact ⟨_, rfl, hz.recolor_black, isRed_recolor_black _, by rw [items_recolor, before, after]; simp⟩
  | case2 z p hc =>
    cases hup with
    | black hb =>
      rw [hc] at hb
      cases hb
  | case3 z p hc =>
    refine ⟨_, rfl, hz.fixed hup fun _ => ⟨p, [], rfl, ?_⟩⟩
    cases hpc : p.color with
    | black => rfl
    | red => exact absurd hpc hc
  | case4 z p g up hc huncle ih =>
    obtain ⟨hp, hpr, hg, hgs, hup⟩ := hup.of_red hc
    have hitems : (join g.side ((p.join z).recolor .black) .red g.item (g.sibling.recolor .black)).items =
        (join g.side (p.join z) g.color g.item g.sibling).items := by
      rw [items_join, items_join, items_recolor, items_recolor]
    have hparent : Rb (n + 1) ((p.join z).recolor .black) := by
      rw [Parent.join, recolor_join]
      exact hz.join_black hp
    obtain ⟨t, ht, hfixed⟩ := ih (hparent.join_red (hgs.recolor_black_of_red huncle) (isRed_recolor_black _)
      (isRed_recolor_black _)) (by rw [isRed_join]; rfl) hup
    refine ⟨t, ht, ?_⟩
    rw [hitems, ← items_plug] at hfixed
    rw [← items_plug]
    exact hfixed
  | case5 z p g up hc huncle =>
    obtain ⟨hp, hpr, hg, hgs, hup⟩ := hup.of_red hc
    obtain ⟨q, t, hq, ht, hrb, hroot, hitems⟩ := insertCase3 hz hzr hp hpr hc hgs (by simpa using huncle)
    have hfixed := hrb.fixed hup fun hr => by
      rw [hroot] at hr
      cases hr
    rw [hq, Option.bind_some, ht]
    refine ⟨_, rfl, ?_⟩
    rw [hitems, ← items_plug] at hfixed
    rw [← items_plug]
    exact hfixed
  | case6 z p g up hc =>
    refine ⟨_, rfl, hz.fixed hup fun _ => ⟨p, _, rfl, ?_⟩⟩
    cases hpc : p.color with
    | black => rfl
    | red => exact absurd hpc hc

/-! ### After a deletion -/

/-- A tree that is one black node less high than its place: made black where it is red it is as high. -/
def Lack (n : ℕ) (x : TreeNode K V) : Prop := if x.isRed then Rb (n + 1) (x.recolor .black) else Rb n x

theorem Rb.lack (h : Rb n x) : Lack n x := by
  rw [Lack]
  split
  · next hr => exact h.recolor_black_of_red hr
  · exact h

theorem Lack.of_not_red (h : Lack n x) (hr : x.isRed = false) : Rb n x := by
  rw [Lack, hr, if_neg nofun] at h
  exact h

theorem Rb.split_black (h : Rb (n + 1) s) (hs : s.isRed = false) (side : Side) :
    ∃ w : Split K V, s.split side = some w ∧ s = join side w.near .black w.item w.far ∧ Rb n w.near ∧ Rb n w.far := by
  cases h with
  | red => cases hs
  | @black _ l r y hl hr =>
    cases side with
    | left => exact ⟨⟨.black, l, y, r⟩, rfl, rfl, hl, hr⟩
    | right => exact ⟨⟨.black, r, y, l⟩, rfl, rfl, hr, hl⟩

theorem RbUp.parent (hup : RbUp n (p :: up)) : Rb n p.sibling ∧
    ((p.color = .black ∧ RbUp (n + 1) up) ∨
      (p.color = .red ∧ p.sibling.isRed = false ∧ RbUp n up ∧ ∃ g up', up = g :: up' ∧ g.color = .black)) := by
  cases hup with
  | black hc hs hup => exact ⟨hs, .inl ⟨hc, hup⟩⟩
  | red hc hs hsr hg hup => exact ⟨hs, .inr ⟨hc, hsr, hup, _, _, rfl, hg⟩⟩

theorem deleteCase1_spec (hup : RbUp n (p :: up)) (x : TreeNode K V) :
    RbUp n ((deleteCase1 p up).1 :: (deleteCase1 p up).2) ∧ (deleteCase1 p up).1.sibling.isRed = false ∧
      (deleteCase1 p up).1.side = p.side ∧ (deleteCase1 p up).1.item = p.item ∧
      (plug ((deleteCase1 p up).1 :: (deleteCase1 p up).2) x).items = (plug (p :: up) x).items := by
  obtain ⟨side, c, y, s⟩ := p
  have hcase1 : ∀ {p' g : Parent K V} {q : Parent K V}, (g.join (p'.join x)).items = (q.join x).items →
      (plug (p' :: g :: up) x).items = (plug (q :: up) x).items := fun h => plug_items up h
  obtain ⟨hs, ⟨hc, hup'⟩ | ⟨hc, hsr, -⟩⟩ := hup.parent
  · cases hs with
    | null => exact ⟨hup, rfl, rfl, rfl, rfl⟩
    | black hl hr =>
      cases side
      all_goals exact ⟨hup, rfl, rfl, rfl, rfl⟩
    | red hl hr hlr hrr =>
      cases side
      · exact ⟨.red rfl hl hlr rfl (.black rfl hr hup'), hlr, rfl, rfl, hcase1 (by simp [deleteCase1, split, Parent.join, join, items])⟩
      · exact ⟨.red rfl hr hrr rfl (.black rfl hl hup'), hrr, rfl, rfl, hcase1 (by simp [deleteCase1, split, Parent.join, join, items])⟩
  · have hsame : deleteCase1 { side, color := c, item := y, sibling := s } up =
        ({ side, color := c, item := y, sibling := s }, up) := by
      rw [deleteCase1]
      cases s with
      | null => rfl
      | node d l x r =>
        cases d
        · cases side <;> rfl
        · cases hsr
    rw [hsame]
    exact ⟨hup, hsr, rfl, rfl, rfl⟩

theorem deleteCase4_spec (side : Side) (c : Color) (y : TreeItem K V) {w : Split K V} (hx : Rb n x) (hnear : Rb n w.near)
    (hfar : Rb n w.far) (hred : (w.near.isRed || w.far.isRed) = true) :
    ∃ a b z, deleteCase4 x { side, color := c, item := y, sibling := join side w.near .black w.item w.far } w =
        some (join side a c z b) ∧ Rb (n + 1) a ∧ Rb (n + 1) b ∧ a.isRed = false ∧ b.isRed = false ∧
      (join side a c z b).items = (join side x c y (join side w.near .black w.item w.far)).items := by
  obtain ⟨wc, near, wx, far⟩ := w
  rw [deleteCase4]
  by_cases hfr : far.isRed = true
  · rw [if_pos hfr]
    refine ⟨join side x .black y near, far.recolor .black, wx, ?_, hx.join_black hnear, hfar.recolor_black_of_red hfr,
      by rw [isRed_join]; rfl, isRed_recolor_black _, ?_⟩
    · cases side <;> rfl
    · rw [items_join, items_join, items_join, items_join, items_recolor]
      cases side <;> simp
  · rw [if_neg hfr]
    cases hnear with
    | red hl hr hlr hrr =>
      cases side
      · exact ⟨_, _, _, rfl, .black hx hl, .black hr hfar, rfl, rfl, by simp [join, items]⟩
      · exact ⟨_, _, _, rfl, .black hr hx, .black hfar hl, rfl, rfl, by simp [join, items]⟩
    | null | black =>
      rw [Bool.eq_false_iff.2 hfr] at hred
      cases hred

theorem deleteFixup_spec (hx : Lack n x) (hup : RbUp (n + 1) up) :
    ∃ t, deleteFixup x up = some t ∧ Fixed (before up ++ x.items ++ after up) t := by
  fun_induction deleteFixup x up generalizing n with
  | case1 x =>
    refine ⟨_, rfl, ?_, isRed_recolor_black _, by rw [items_recolor, before, after]; simp⟩
    rw [Lack] at hx
    split at hx
    · exact ⟨_, hx⟩
    · exact hx.recolor_black
  | case2 x p up hr =>
    rw [Lack, if_pos hr] at hx
    obtain ⟨m, hm⟩ := hx.plug hup fun h => by
      rw [isRed_recolor_black] at h
      cases h
    refine ⟨_, rfl, ⟨m, hm⟩, hup.plug_isRed nofun _, ?_⟩
    rw [items_plug, items_recolor]
  | case3 x p up hr hsplit =>
    obtain ⟨hup', hsr, hside, -, -⟩ := deleteCase1_spec hup x
    obtain ⟨w, hw, -⟩ := hup'.parent.1.split_black hsr p.side
    rw [hsplit] at hw
    cases hw
  | case4 x p up hr w hsplit hred =>
    have hx := hx.of_not_red (by simpa using hr)
    obtain ⟨hup', hsr, hside, hitem, hitems⟩ := deleteCase1_spec hup x
    obtain ⟨hs, hcolor⟩ := hup'.parent
    obtain ⟨w', hw, hjoin, hnear, hfar⟩ := hs.split_black hsr p.side
    obtain rfl := Option.some.inj (hsplit.symm.trans hw)
    obtain ⟨a, b, z, hcase4, ha, hb, har, hbr, hz⟩ :=
      deleteCase4_spec p.side (deleteCase1 p up).1.color p.item hx hnear hfar hred
    have hp' : (deleteCase1 p up).1 =
        ⟨p.side, (deleteCase1 p up).1.color, p.item, join p.side w.near .black w.item w.far⟩ := by
      rw [← hjoin, ← hside, ← hitem]
    rw [← hp'] at hcase4
    rw [hcase4]
    have hfixed : Fixed (before (deleteCase1 p up).2 ++ (join p.side a (deleteCase1 p up).1.color z b).items ++
        after (deleteCase1 p up).2)
        ((plug (deleteCase1 p up).2 (join p.side a (deleteCase1 p up).1.color z b)).recolor .black) := by
      obtain ⟨hc, hup₂⟩ | ⟨hc, -, hup₂, hg⟩ := hcolor
      · rw [hc]
        refine (ha.join_black hb).fixed hup₂ fun h => ?_
        rw [isRed_join] at h
        cases h
      · rw [hc]
        exact (ha.join_red hb har hbr).fixed hup₂ fun _ => hg
    refine ⟨_, rfl, ?_⟩
    rw [hz, ← items_plug] at hfixed
    rw [← items_plug, ← hitems, hp']
    exact hfixed
  | case5 x p up hr w hsplit hred ih =>
    have hx := hx.of_not_red (by simpa using hr)
    obtain ⟨hup', hsr, hside, hitem, hitems⟩ := deleteCase1_spec hup x
    obtain ⟨hs, hcolor⟩ := hup'.parent
    obtain ⟨w', hw, hjoin, hnear, hfar⟩ := hs.split_black hsr p.side
    obtain rfl := Option.some.inj (hsplit.symm.trans hw)
    have hred : w.near.isRed = false ∧ w.far.isRed = false := by simpa using hred
    have hw : Rb n ((deleteCase1 p up).1.sibling.recolor .red) := by
      rw [hjoin, recolor_join]
      exact hnear.join_red hfar hred.1 hred.2
    have hplug : before (deleteCase1 p up).2 ++ (join p.side x (deleteCase1 p up).1.color p.item
        ((deleteCase1 p up).1.sibling.recolor .red)).items ++ after (deleteCase1 p up).2 =
          before (p :: up) ++ x.items ++ after (p :: up) := by
      rw [← items_plug, ← items_plug, ← hitems]
      refine plug_items (deleteCase1 p up).2 ?_
      rw [Parent.join, hside, hitem, items_join, items_join, items_recolor]
    rw [← hplug]
    obtain ⟨hc, hup₂⟩ | ⟨hc, -, hup₂, -⟩ := hcolor
    · refine ih (n := n + 1) ?_ hup₂
      rw [hc]
      exact (hx.join_black hw).lack
    · refine ih ?_ hup₂
      rw [Lack, isRed_join, hc, if_pos (decide_eq_true rfl), recolor_join]
      exact hx.join_black hw

/-! ### The way to a node -/

theorem Rb.left_right {c : Color} (h : Rb n (.node c l y r)) (hup : RbUp n up)
    (hred : RedOk (.node c l y r) up) : ∃ m, Rb m l ∧ Rb m r ∧
      (∀ side z, RbUp m ({ side, color := c, item := z, sibling := match side with | .left => r | .right => l } :: up)) ∧
      RedOk l ({ side := .left, color := c, item := y, sibling := r } :: up) ∧
      RedOk r ({ side := .right, color := c, item := y, sibling := l } :: up) := by
  cases h with
  | red hl hr hlr hrr =>
    obtain ⟨g, up, rfl, hg⟩ := hred rfl
    refine ⟨n, hl, hr, fun side z => ?_, fun h => ?_, fun h => ?_⟩
    · cases side
      · exact .red rfl hr hrr hg hup
      · exact .red rfl hl hlr hg hup
    · rw [hlr] at h
      cases h
    · rw [hrr] at h
      cases h
  | black hl hr =>
    refine ⟨_, hl, hr, fun side z => ?_, fun _ => ⟨_, _, rfl, rfl⟩, fun _ => ⟨_, _, rfl, rfl⟩⟩
    cases side
    · exact .black rfl hr hup
    · exact .black rfl hl hup

/-- A place in the tree is balanced as the tree is. -/
def Placed (t : TreeNode K V) (up : List (Parent K V)) : Prop := ∃ n, Rb n t ∧ RbUp n up ∧ RedOk t up

theorem placed_findNode (h : ℕ) (t : TreeNode K V) (up : List (Parent K V)) (hplaced : Placed t up) :
    Placed (findNode h t up).1 (findNode h t up).2 ∧ plug (findNode h t up).2 (findNode h t up).1 = plug up t := by
  fun_induction findNode h t up with
  | case1 => exact ⟨hplaced, rfl⟩
  | case2 c l x r up hlt ih =>
    obtain ⟨n, hrb, hup, hred⟩ := hplaced
    obtain ⟨m, hl, -, hparent, hredl, -⟩ := hrb.left_right hup hred
    exact ih ⟨m, hl, hparent .left x, hredl⟩
  | case3 c l x r up _ hlt ih =>
    obtain ⟨n, hrb, hup, hred⟩ := hplaced
    obtain ⟨m, -, hr, hparent, -, hredr⟩ := hrb.left_right hup hred
    exact ih ⟨m, hr, hparent .right x, hredr⟩
  | case4 => exact ⟨hplaced, rfl⟩

theorem placed_treeMin (t : TreeNode K V) (up : List (Parent K V)) (hplaced : Placed t up) :
    Placed (treeMin t up).1 (treeMin t up).2 ∧ plug (treeMin t up).2 (treeMin t up).1 = plug up t ∧
      before (treeMin t up).2 = before up := by
  fun_induction treeMin t up with
  | case1 c c' l' x' r' x r up ih =>
    obtain ⟨n, hrb, hup, hred⟩ := hplaced
    obtain ⟨m, hl, -, hparent, hredl, -⟩ := hrb.left_right hup hred
    obtain ⟨h1, h2, h3⟩ := ih ⟨m, hl, hparent .left x, hredl⟩
    exact ⟨h1, h2, by rw [h3, before, List.append_nil]⟩
  | case2 => exact ⟨hplaced, rfl, rfl⟩

theorem treeMin_append (t : TreeNode K V) (up : List (Parent K V)) :
    treeMin t up = ((treeMin t []).1, (treeMin t []).2 ++ up) := by
  induction t generalizing up with
  | null => rfl
  | node c l x r ihl =>
    cases l with
    | null => rfl
    | node c' l' x' r' =>
      rw [treeMin, treeMin, ihl, ihl [_], List.append_assoc]
      rfl

theorem treeMin_node (t : TreeNode K V) (up : List (Parent K V)) (hne : t ≠ .null) :
    ∃ c y r, (treeMin t up).1 = .node c .null y r := by
  fun_induction treeMin t up with
  | case1 c c' l' x' r' x r up ih => exact ih nofun
  | case2 t up hno =>
    cases t with
    | null => exact absurd rfl hne
    | node c l x r =>
      cases l with
      | null => exact ⟨c, x, r, rfl⟩
      | node c' l' x' r' => exact absurd rfl (hno c c' l' x' r' x r)

/-! ### A node goes -/

/-- A child that takes the place of its parent: it is as high as the place, or one black node less. -/
def Shorter (n : ℕ) (c : Color) (s : TreeNode K V) : Prop :=
  (c = .black ∧ ∃ m, n = m + 1 ∧ Rb m s) ∨ (c = .red ∧ Rb n s ∧ s.isRed = false)

theorem Rb.shorter {c : Color} (h : Rb n (.node c l y r)) : Shorter n c l ∧ Shorter n c r := by
  cases h with
  | red hl hr hlr hrr => exact ⟨.inr ⟨rfl, hl, hlr⟩, .inr ⟨rfl, hr, hrr⟩⟩
  | black hl hr => exact ⟨.inl ⟨rfl, _, rfl, hl⟩, .inl ⟨rfl, _, rfl, hr⟩⟩

theorem replace_spec {c : Color} (hs : Shorter n c s) (hup : RbUp n up)
    (hred : RedOk (.node c l y r) up) :
    ∃ t, (if c = .black then deleteFixup s up else some (plug up s)) = some t ∧
      Fixed (before up ++ s.items ++ after up) t := by
  obtain ⟨rfl, m, rfl, hs⟩ | ⟨rfl, hs, hsr⟩ := hs
  · exact deleteFixup_spec hs.lack hup
  · obtain ⟨g, up', rfl, -⟩ := hred rfl
    have hplug := hs.plug hup fun h => by
      rw [hsr] at h
      cases h
    exact ⟨_, rfl, hplug, hup.plug_isRed nofun _, items_plug ..⟩

theorem removeNode_spec {c : Color} (hplaced : Placed (.node c l y r) up) :
    ∃ t, removeNode c l r up = some t ∧ Fixed (before up ++ (l.items ++ r.items) ++ after up) t := by
  obtain ⟨n, hrb, hup, hred⟩ := hplaced
  obtain ⟨hl, hr⟩ := hrb.shorter
  rw [removeNode.eq_def]
  split
  · exact replace_spec hr hup hred
  · obtain ⟨t, ht, hfixed⟩ := replace_spec hl hup hred
    refine ⟨t, ht, ?_⟩
    rw [items, List.append_nil]
    exact hfixed
  · next hlne hrne =>
    obtain ⟨c', z, r', hmin⟩ := treeMin_node r [] hrne
    have hfind : treeMin r [] = (.node c' .null z r', (treeMin r []).2) := by
      rw [← hmin]
    obtain ⟨m, -, hr, hparent, -, hredr⟩ := hrb.left_right hup hred
    -- The successor's entries take the node's place, which the heights are not about.
    obtain ⟨⟨k, hk, hupk, hredk⟩, hplug, hbefore⟩ :=
      placed_treeMin r ({ side := .right, color := c, item := z, sibling := l } :: up) ⟨m, hr, hparent .right z, fun h => by
        obtain ⟨g, up', he, hg⟩ := hredr h
        cases he
        exact ⟨_, _, rfl, hg⟩⟩
    rw [treeMin_append, hfind] at hk hupk hredk hplug hbefore
    rw [hfind]
    obtain ⟨t, ht, hfixed⟩ := replace_spec hk.shorter.2 hupk hredk
    refine ⟨t, ht, ?_⟩
    have hitems := congrArg TreeNode.items hplug
    rw [items_plug, hbefore, items_plug, List.append_assoc, List.append_assoc] at hitems
    have hrest := List.append_cancel_left hitems
    rw [hbefore] at hfixed
    have hall : before ({ side := .right, color := c, item := z, sibling := l } :: up) ++ r'.items ++
        after ((treeMin r []).2 ++ { side := .right, color := c, item := z, sibling := l } :: up) =
          before up ++ (l.items ++ r.items) ++ after up := by
      have hcons : r.items ++ after up = z :: (r'.items ++
          after ((treeMin r []).2 ++ { side := .right, color := c, item := z, sibling := l } :: up)) := hrest.symm
      rw [List.append_assoc (before up), List.append_assoc l.items, hcons, before]
      simp
    rw [hall] at hfixed
    exact hfixed

end Libx.Map
