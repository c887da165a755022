import Libx.Map.Chain

/-!
# Libx.Map.Tree — the red-black tree

map_tree.c.  A node is a subtree together with the parents that its `parent` pointers lead to, so that a change of the
pointers around it is a change of one of the two; the nodes come from pools that have memory.  What the source does on the
left and, mirrored, on the right is done on a `Side`.
-/

namespace Libx.Map

variable {K V : Type}

/-- `xRBColor`. -/
inductive Color
  | black
  | red
  deriving DecidableEq

inductive Side
  | left
  | right
  deriving DecidableEq

def Side.other : Side → Side
  | .left => .right
  | .right => .left

/-- What a node holds: the entries whose keys have one hash. -/
structure TreeItem (K V : Type) where
  hash : ℕ
  key : K
  val : V
  overflow : List (K × V) := []
  deriving DecidableEq

def TreeItem.entries (x : TreeItem K V) : List (K × V) := (x.key, x.val) :: x.overflow

/-- `xTreeNode`. -/
inductive TreeNode (K V : Type)
  | null
  | node (color : Color) (left : TreeNode K V) (item : TreeItem K V) (right : TreeNode K V)
  deriving DecidableEq

/-- A node, its children as they are seen from one side. -/
structure Split (K V : Type) where
  color : Color
  near : TreeNode K V
  item : TreeItem K V
  far : TreeNode K V

/-- A parent of a node, which is its child on one side. -/
structure Parent (K V : Type) where
  side : Side
  color : Color
  item : TreeItem K V
  sibling : TreeNode K V

namespace TreeNode

/-- `NULL` is black. -/
def isRed : TreeNode K V → Bool
  | .node .red .. => true
  | _ => false

/-- `n->color = color`. -/
def recolor (color : Color) : TreeNode K V → TreeNode K V
  | .null => .null
  | .node _ l x r => .node color l x r

/-- The node with `t` on one side and `s` on the other. -/
def join (side : Side) (t : TreeNode K V) (color : Color) (item : TreeItem K V) (s : TreeNode K V) : TreeNode K V :=
  match side with
  | .left => .node color t item s
  | .right => .node color s item t

def split : Side → TreeNode K V → Option (Split K V)
  | _, .null => none
  | .left, .node c l x r => some ⟨c, l, x, r⟩
  | .right, .node c l x r => some ⟨c, r, x, l⟩

/-- `rotate_left`. -/
def rotateLeft : TreeNode K V → Option (TreeNode K V)
  | .node c a x (.node d b y e) => some (.node d (.node c a x b) y e)
  | _ => none

/-- `rotate_right`. -/
def rotateRight : TreeNode K V → Option (TreeNode K V)
  | .node c (.node d a y b) x e => some (.node d a y (.node c b x e))
  | _ => none

def rotate : Side → TreeNode K V → Option (TreeNode K V)
  | .left => rotateLeft
  | .right => rotateRight

/-- `iterate_subtree`. -/
def iterateSubtree (fn : List (K × V) → Bool) (done : List (K × V)) : TreeNode K V → List (K × V) × Bool
  | .null => (done, true)
  | .node _ l x r =>
    match iterateSubtree fn done l with
    | (done, false) => (done, false)
    | (done, true) =>
      match visit fn done x.entries with
      | (done, false) => (done, false)
      | (done, true) => iterateSubtree fn done r

end TreeNode

namespace Parent

def join (p : Parent K V) (t : TreeNode K V) : TreeNode K V := t.join p.side p.color p.item p.sibling

end Parent

open TreeNode

def plug : List (Parent K V) → TreeNode K V → TreeNode K V
  | [], t => t
  | p :: up, t => plug up (p.join t)

/-- `find_node`, and the search of `tree_set`: the node with the hash, or where it would be. -/
def findNode (h : ℕ) : TreeNode K V → List (Parent K V) → TreeNode K V × List (Parent K V)
  | .null, up => (.null, up)
  | .node c l x r, up =>
    if h < x.hash then findNode h l ({ side := .left, color := c, item := x, sibling := r } :: up)
    else if x.hash < h then findNode h r ({ side := .right, color := c, item := x, sibling := l } :: up)
    else (.node c l x r, up)

/-- `tree_min`. -/
def treeMin : TreeNode K V → List (Parent K V) → TreeNode K V × List (Parent K V)
  | .node c (.node c' l' x' r') x r, up =>
    treeMin (.node c' l' x' r') ({ side := .left, color := c, item := x, sibling := r } :: up)
  | t, up => (t, up)

/-- `insert_fixup`; at last the root is black. -/
def insertFixup : TreeNode K V → List (Parent K V) → Option (TreeNode K V)
  | z, [] => some (z.recolor .black)
  | z, [p] => if p.color = .red then none else some ((plug [p] z).recolor .black)
  | z, p :: g :: up =>
    if p.color = .red then
      if g.sibling.isRed then
        -- Case 1: the uncle is red.
        insertFixup (join g.side ((p.join z).recolor .black) .red g.item (g.sibling.recolor .black)) up
      else
        -- Case 2: `z` is the inner grandchild; case 3.
        (if p.side = g.side then some (p.join z) else rotate g.side (p.join z)).bind fun q =>
          (rotate g.side.other (join g.side (q.recolor .black) .red g.item g.sibling)).map fun t =>
            (plug up t).recolor .black
    else some ((plug (p :: g :: up) z).recolor .black)

/-- `delete_fixup`, case 1: where the sibling is red it becomes a parent, and the near child the sibling. -/
def deleteCase1 (p : Parent K V) (up : List (Parent K V)) : Parent K V × List (Parent K V) :=
  match p.sibling.split p.side with
  | some ⟨.red, near, y, far⟩ =>
    ({ p with color := .red, sibling := near }, { side := p.side, color := .black, item := y, sibling := far } :: up)
  | _ => (p, up)

/-- `delete_fixup`, cases 3 and 4: a child of the sibling is red. -/
def deleteCase4 (x : TreeNode K V) (p : Parent K V) (w : Split K V) : Option (TreeNode K V) :=
  (if w.far.isRed then some p.sibling
    else rotate p.side.other (join p.side (w.near.recolor .black) .red w.item w.far)).bind fun s =>
      (s.split p.side).bind fun w =>
        rotate p.side (join p.side x .black p.item (join p.side w.near p.color w.item (w.far.recolor .black)))

theorem isRed_join (side : Side) (t : TreeNode K V) (c : Color) (x : TreeItem K V) (s : TreeNode K V) :
    (join side t c x s).isRed = decide (c = .red) := by
  cases side <;> cases c <;> rfl

theorem deleteCase1_length (p : Parent K V) (up : List (Parent K V)) :
    (deleteCase1 p up).2.length = up.length ∨
      ((deleteCase1 p up).2.length = up.length + 1 ∧ (deleteCase1 p up).1.color = .red) := by
  rw [deleteCase1]
  split
  · exact .inr ⟨rfl, rfl⟩
  · exact .inl rfl

/-- `delete_fixup`; the parents of `x` begin with `x_parent`, and the root is `x` at last. -/
def deleteFixup (x : TreeNode K V) (up : List (Parent K V)) : Option (TreeNode K V) :=
  match up with
  | [] => some (x.recolor .black)
  | p :: up =>
    if x.isRed then some (plug (p :: up) (x.recolor .black))
    else
      match (deleteCase1 p up).1.sibling.split p.side with
      | none => none
      | some w =>
        if w.near.isRed || w.far.isRed then
          (deleteCase4 x (deleteCase1 p up).1 w).map fun t => (plug (deleteCase1 p up).2 t).recolor .black
        else
          -- Case 2: the siblings are one black node less high, and so is their parent.
          deleteFixup (join p.side x (deleteCase1 p up).1.color p.item ((deleteCase1 p up).1.sibling.recolor .red))
            (deleteCase1 p up).2
termination_by 2 * up.length + if x.isRed then 0 else 1
decreasing_by
  have := deleteCase1_length p up
  rw [isRed_join]
  grind

/-- `tree_del`, a node without an overflow chain: its only child takes its place, or its successor does. -/
def removeNode (c : Color) (l : TreeNode K V) (r : TreeNode K V) (up : List (Parent K V)) : Option (TreeNode K V) :=
  match l, r with
  | .null, r => if c = .black then deleteFixup r up else some (plug up r)
  | l, .null => if c = .black then deleteFixup l up else some (plug up l)
  | l, r =>
    match treeMin r [] with
    | (.node c' _ y r', between) =>
      let up := between ++ { side := .right, color := c, item := y, sibling := l } :: up
      if c' = .black then deleteFixup r' up else some (plug up r')
    | (.null, _) => none

/-- `xMapTree`. -/
structure TreeMap (K V : Type) where
  root : TreeNode K V := .null
  size : ℕ := 0

namespace TreeMap

variable (keys : Keys K)

/-- `xMapTreeCreate`. -/
def create : TreeMap K V := {}

/-- The value of the key among the entries of a node is set; the entry is new where the key has none. -/
def setItem (x : TreeItem K V) (key : K) (val : V) : TreeItem K V × Bool :=
  if keys.eq x.key key then ({ x with val }, false)
  else
    match setChain keys.eq key val x.overflow with
    | some overflow => ({ x with overflow }, false)
    | none => ({ x with overflow := (key, val) :: x.overflow }, true)

/-- `tree_set`. -/
def set (t : TreeMap K V) (key : K) (val : V) : Option (SetError × TreeMap K V) :=
  match findNode (keys.hash key) t.root [] with
  | (.node c l x r, up) =>
    match setItem keys x key val with
    | (x, new) => some (.ok, { root := plug up (.node c l x r), size := if new then t.size + 1 else t.size })
  | (.null, up) =>
    (insertFixup (.node .red .null { hash := keys.hash key, key, val } .null) up).map fun root =>
      (.ok, { root, size := t.size + 1 })

/-- `tree_get`. -/
def get [Zero V] (t : TreeMap K V) (key : K) : V :=
  match findNode (keys.hash key) t.root [] with
  | (.node _ _ x _, _) => if keys.eq x.key key then x.val else (getChain keys.eq key x.overflow).getD 0
  | (.null, _) => 0

/-- `tree_del`. -/
def del [Zero V] (t : TreeMap K V) (key : K) : Option (V × TreeMap K V) :=
  match findNode (keys.hash key) t.root [] with
  | (.node c l x r, up) =>
    if keys.eq x.key key then
      match x.overflow with
      | o :: overflow =>
        some (x.val, { root := plug up (.node c l { x with key := o.1, val := o.2, overflow } r), size := t.size - 1 })
      | [] => (removeNode c l r up).map fun root => (x.val, { root, size := t.size - 1 })
    else
      match delChain keys.eq key x.overflow with
      | some (val, overflow) => some (val, { root := plug up (.node c l { x with overflow } r), size := t.size - 1 })
      | none => some (0, t)
  | (.null, _) => some (0, t)

/-- `tree_len`. -/
def len (t : TreeMap K V) : ℕ := t.size

/-- `tree_iterate`. -/
def iterate (t : TreeMap K V) (fn : List (K × V) → Bool) : List (K × V) := (t.root.iterateSubtree fn []).1

end TreeMap

end Libx.Map
