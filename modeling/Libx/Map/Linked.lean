import Libx.Map.Tree

/-!
# Libx.Map.Linked — the red-black tree as its nodes point to each other

map_tree.c again, now with the `left`, `right` and `parent` pointers as they are read and written.  An operation is
none where a `NULL` or a node that has been freed is followed.  A loop has a number of rounds, which an operation takes
from the size.
-/

namespace Libx.Map

variable {K V : Type}

/-- The primary entry of a node, and its overflow chain. -/
structure Entry (K V : Type) where
  key : K
  val : V
  overflow : List (K × V) := []
  deriving DecidableEq

/-- `xTreeNode`; `NULL` is none. -/
structure Cell (K V : Type) where
  hash : ℕ
  entry : Entry K V
  color : Color
  left : Option ℕ
  right : Option ℕ
  parent : Option ℕ
  deriving DecidableEq

namespace Cell

def child (c : Cell K V) : Side → Option ℕ
  | .left => c.left
  | .right => c.right

def setChild (c : Cell K V) (side : Side) (v : Option ℕ) : Cell K V :=
  match side with
  | .left => { c with left := v }
  | .right => { c with right := v }

end Cell

/-- The nodes at their addresses, and `root`. -/
structure Links (K V : Type) where
  nodes : ℕ → Option (Cell K V) := fun _ => none
  root : Option ℕ := none

namespace Links

def modify (t : Links K V) (a : ℕ) (f : Cell K V → Cell K V) : Option (Links K V) :=
  (t.nodes a).map fun c => { t with nodes := Function.update t.nodes a (some (f c)) }

def setChild (t : Links K V) (side : Side) (a : ℕ) (v : Option ℕ) : Option (Links K V) := t.modify a (·.setChild side v)

def setParent (t : Links K V) (a : ℕ) (v : Option ℕ) : Option (Links K V) := t.modify a ({ · with parent := v })

def setColor (t : Links K V) (a : ℕ) (color : Color) : Option (Links K V) := t.modify a ({ · with color })

def setEntry (t : Links K V) (a : ℕ) (entry : Entry K V) : Option (Links K V) := t.modify a ({ · with entry })

/-- `if (v) ...`. -/
def unlessNull (t : Links K V) (v : Option ℕ) (f : ℕ → Option (Links K V)) : Option (Links K V) :=
  match v with
  | none => some t
  | some a => f a

/-- `v && v->color == RB_RED`. -/
def isRed (t : Links K V) : Option ℕ → Option Bool
  | none => some false
  | some a => (t.nodes a).map fun c => decide (c.color = .red)

/-- `xSlabFree`. -/
def free (t : Links K V) (a : ℕ) : Links K V := { t with nodes := Function.update t.nodes a none }

/-- `v` takes the place of `u`; which child `u` is, is asked first for one side. -/
def relink (side : Side) (t : Links K V) (u : ℕ) (v : Option ℕ) : Option (Links K V) := do
  let cu ← t.nodes u
  match cu.parent with
  | none => some { t with root := v }
  | some p =>
    let cp ← t.nodes p
    t.setChild (if cp.child side = some u then side else side.other) p v

/-- `rotate_left`, `rotate_right`. -/
def rotate (side : Side) (t : Links K V) (x : ℕ) : Option (Links K V) := do
  let cx ← t.nodes x
  let y ← cx.child side.other
  let cy ← t.nodes y
  let t ← t.setChild side.other x (cy.child side)
  let t ← t.unlessNull (cy.child side) (t.setParent · (some x))
  let cx ← t.nodes x
  let t ← t.setParent y cx.parent
  let t ← t.relink side x (some y)
  let t ← t.setChild side y (some x)
  t.setParent x (some y)

/-! ### After an insertion -/

/-- `insert_fixup`, case 1: the uncle is red. -/
def insertCase1 (t : Links K V) (p g : ℕ) (y : Option ℕ) : Option (Links K V) := do
  let t ← t.setColor p .black
  let y ← y
  let t ← t.setColor y .black
  t.setColor g .red

/-- Case 2: `z` is the inner grandchild. -/
def insertCase2 (side : Side) (t : Links K V) (z : ℕ) : Option (Links K V × ℕ) := do
  let cz ← t.nodes z
  let p ← cz.parent
  let cp ← t.nodes p
  if cp.child side.other = some z then (t.rotate side p).map fun t => (t, p) else some (t, z)

def insertCase3 (side : Side) (t : Links K V) (z : ℕ) : Option (Links K V) := do
  let cz ← t.nodes z
  let p ← cz.parent
  let t ← t.setColor p .black
  let cp ← t.nodes p
  let g ← cp.parent
  let t ← t.setColor g .red
  t.rotate side.other g

/-- `t->root->color = RB_BLACK`. -/
def blackenRoot (t : Links K V) : Option (Links K V) := do
  let r ← t.root
  t.setColor r .black

/-- `insert_fixup`. -/
def insertFixup : ℕ → Links K V → ℕ → Option (Links K V)
  | 0, _, _ => none
  | fuel + 1, t, z => do
    let cz ← t.nodes z
    if ← t.isRed cz.parent then
      let p ← cz.parent
      let cp ← t.nodes p
      let g ← cp.parent
      let cg ← t.nodes g
      let side := if cg.left = some p then Side.left else Side.right
      if ← t.isRed (cg.child side.other) then
        let t ← t.insertCase1 p g (cg.child side.other)
        insertFixup fuel t g
      else
        let (t, z) ← t.insertCase2 side z
        let t ← t.insertCase3 side z
        insertFixup fuel t z
    else t.blackenRoot

/-! ### After a deletion -/

/-- `delete_fixup`, case 1; and the sibling. -/
def deleteCase1 (side : Side) (t : Links K V) (p : ℕ) : Option (Links K V × Option ℕ) := do
  let cp ← t.nodes p
  if ← t.isRed (cp.child side.other) then
    let w ← cp.child side.other
    let t ← t.setColor w .black
    let t ← t.setColor p .red
    let t ← t.rotate side p
    let cp ← t.nodes p
    some (t, cp.child side.other)
  else some (t, cp.child side.other)

def deleteCase3 (side : Side) (t : Links K V) (p w : ℕ) : Option (Links K V × Option ℕ) := do
  let cw ← t.nodes w
  if ← t.isRed (cw.child side.other) then some (t, some w)
  else
    let t ← t.unlessNull (cw.child side) (t.setColor · .black)
    let t ← t.setColor w .red
    let t ← t.rotate side.other w
    let cp ← t.nodes p
    some (t, cp.child side.other)

def deleteCase4 (side : Side) (t : Links K V) (p w : ℕ) : Option (Links K V) := do
  let cp ← t.nodes p
  let t ← t.setColor w cp.color
  let t ← t.setColor p .black
  let cw ← t.nodes w
  let t ← t.unlessNull (cw.child side.other) (t.setColor · .black)
  t.rotate side p

/-- `delete_fixup`. -/
def deleteFixup : ℕ → Links K V → Option ℕ → Option ℕ → Option (Links K V)
  | 0, _, _, _ => none
  | fuel + 1, t, x, xParent => do
    if ← (if x = t.root then some true else t.isRed x) then t.unlessNull x (t.setColor · .black)
    else
      let p ← xParent
      let cp ← t.nodes p
      let side := if cp.left = x then Side.left else Side.right
      let (t, w) ← t.deleteCase1 side p
      let w ← w
      let cw ← t.nodes w
      let near ← t.isRed (cw.child side)
      let far ← t.isRed (cw.child side.other)
      if near || far then
        let (t, w) ← t.deleteCase3 side p w
        let w ← w
        let t ← t.deleteCase4 side p w
        deleteFixup fuel t t.root xParent
      else
        -- Case 2.
        let t ← t.setColor w .red
        let cp ← t.nodes p
        deleteFixup fuel t (some p) cp.parent

/-! ### Searches, and a node that goes -/

/-- `transplant`. -/
def transplant (t : Links K V) (u : ℕ) (v : Option ℕ) : Option (Links K V) := do
  let t ← t.relink .left u v
  let cu ← t.nodes u
  t.unlessNull v (t.setParent · cu.parent)

/-- `tree_min`. -/
def treeMin (t : Links K V) : ℕ → ℕ → Option ℕ
  | 0, _ => none
  | fuel + 1, n => do
    let c ← t.nodes n
    match c.left with
    | none => some n
    | some l => treeMin t fuel l

/-- `find_node`. -/
def findNode (t : Links K V) (h : ℕ) : ℕ → Option ℕ → Option (Option ℕ)
  | _, none => some none
  | 0, some _ => none
  | fuel + 1, some n => do
    let c ← t.nodes n
    if h < c.hash then findNode t h fuel c.left
    else if c.hash < h then findNode t h fuel c.right
    else some (some n)

/-- The search of `tree_set`: `cur`, `parent`, `dir`. -/
def search (t : Links K V) (h : ℕ) : ℕ → Option ℕ → Option ℕ → Option Side → Option (Option ℕ × Option ℕ × Option Side)
  | _, none, parent, dir => some (none, parent, dir)
  | 0, some _, _, _ => none
  | fuel + 1, some cur, _, dir => do
    let c ← t.nodes cur
    if h < c.hash then search t h fuel c.left (some cur) (some .left)
    else if c.hash < h then search t h fuel c.right (some cur) (some .right)
    else some (some cur, some cur, dir)

/-- `tree_set`: the new node becomes a child of the parent. -/
def linkNode (t : Links K V) (z : ℕ) (parent : Option ℕ) (dir : Option Side) : Option (Links K V) :=
  match parent with
  | none => some { t with root := some z }
  | some p => t.setChild (if dir = some .left then .left else .right) p (some z)

/-- `tree_del`, where the successor is not a child of `n`: it leaves its place, and has the right child of `n`. -/
def unlinkSuccessor (t : Links K V) (n y : ℕ) : Option (Links K V) := do
  let cy ← t.nodes y
  let t ← t.transplant y cy.right
  let cn ← t.nodes n
  let t ← t.setChild .right y cn.right
  let r ← cn.right
  t.setParent r (some y)

/-- `tree_del`: the successor takes the place of `n`. -/
def replaceNode (t : Links K V) (n y : ℕ) : Option (Links K V) := do
  let t ← t.transplant n (some y)
  let cn ← t.nodes n
  let t ← t.setChild .left y cn.left
  let l ← cn.left
  let t ← t.setParent l (some y)
  let cn ← t.nodes n
  t.setColor y cn.color

/-- `tree_del` until the node is freed: `x`, `x_parent` and `y_orig`. -/
def unlink (fuel : ℕ) (t : Links K V) (n : ℕ) : Option (Links K V × Option ℕ × Option ℕ × Color) := do
  let cn ← t.nodes n
  match cn.left, cn.right with
  | none, _ => (t.transplant n cn.right).map fun t => (t, cn.right, cn.parent, cn.color)
  | some _, none => (t.transplant n cn.left).map fun t => (t, cn.left, cn.parent, cn.color)
  | some _, some r =>
    let y ← t.treeMin fuel r
    let cy ← t.nodes y
    if cy.parent = some n then (t.replaceNode n y).map fun t => (t, cy.right, some y, cy.color)
    else
      let t ← t.unlinkSuccessor n y
      (t.replaceNode n y).map fun t => (t, cy.right, cy.parent, cy.color)

end Links

/-- `xMapTree`. -/
structure LinkedMap (K V : Type) where
  links : Links K V := {}
  size : ℕ := 0

namespace LinkedMap

variable (hash : K → ℕ) (eq : K → K → Bool)

/-- `xMapTreeCreate`. -/
def create : LinkedMap K V := {}

/-- The entry of the key gets the value, where the node has one. -/
def setEntry (e : Entry K V) (key : K) (val : V) : Option (Entry K V) :=
  if eq e.key key then some { e with val } else (setChain eq key val e.overflow).map fun overflow => { e with overflow }

/-- `tree_set`, where no node has the hash: a red node, and `insert_fixup`. -/
def insertNode (t : LinkedMap K V) (key : K) (val : V) (z : ℕ) (parent : Option ℕ) (dir : Option Side) :
    Option (LinkedMap K V) := do
  let cz : Cell K V := { hash := hash key, entry := { key, val }, color := .red, left := none, right := none, parent }
  let links := { t.links with nodes := Function.update t.links.nodes z (some cz) }
  let links ← links.linkNode z parent dir
  let links ← links.insertFixup (t.size + 1) z
  some { links, size := t.size + 1 }

/-- `tree_set`; the slabs have given the node, or `NULL`, and have memory for an overflow entry, or not. -/
def set (t : LinkedMap K V) (key : K) (val : V) (slot : Option ℕ) (room : Bool) :
    Option (SetError × LinkedMap K V) := do
  let (cur, parent, dir) ← t.links.search (hash key) t.size t.links.root none none
  match cur with
  | some n =>
    let c ← t.links.nodes n
    match setEntry eq c.entry key val with
    | some entry => (t.links.setEntry n entry).map fun links => (.ok, { t with links })
    | none =>
      if room then
        (t.links.setEntry n { c.entry with overflow := (key, val) :: c.entry.overflow }).map fun links =>
          (.ok, { links, size := t.size + 1 })
      else some (.noMemory, t)
  | none =>
    match slot with
    | some z => (insertNode hash t key val z parent dir).map fun t => (.ok, t)
    | none => some (.noMemory, t)

/-- `tree_del`, a node without an overflow chain. -/
def removeNode (t : LinkedMap K V) (n : ℕ) : Option (LinkedMap K V) := do
  let (links, x, xParent, yOrig) ← t.links.unlink t.size n
  let links := links.free n
  let links ← (if yOrig = .black then links.deleteFixup t.size x xParent else some links)
  some { links, size := t.size - 1 }

/-- `tree_del`. -/
def del [Zero V] (t : LinkedMap K V) (key : K) : Option (V × LinkedMap K V) := do
  let n ← t.links.findNode (hash key) t.size t.links.root
  match n with
  | none => some (0, t)
  | some n =>
    let c ← t.links.nodes n
    if eq c.entry.key key then
      match c.entry.overflow with
      | o :: overflow =>
        (t.links.setEntry n { key := o.1, val := o.2, overflow }).map fun links =>
          (c.entry.val, { links, size := t.size - 1 })
      | [] => (t.removeNode n).map fun t => (c.entry.val, t)
    else
      match delChain eq key c.entry.overflow with
      | some (val, overflow) =>
        (t.links.setEntry n { c.entry with overflow }).map fun links => (val, { links, size := t.size - 1 })
      | none => some (0, t)

end LinkedMap

/-- A call of `tree_set`, with what the slabs give; or of `tree_del`. -/
inductive TreeOp (K V : Type)
  | set (key : K) (val : V) (slot : Option ℕ) (room : Bool)
  | del (key : K)

namespace LinkedMap

variable (hash : K → ℕ) (eq : K → K → Bool)

def step [Zero V] (t : LinkedMap K V) : TreeOp K V → Option (LinkedMap K V)
  | .set key val slot room => (t.set hash eq key val slot room).map Prod.snd
  | .del key => (t.del hash eq key).map Prod.snd

def Fresh (t : LinkedMap K V) : TreeOp K V → Prop
  | .set _ _ (some z) _ => t.links.nodes z = none
  | _ => True

end LinkedMap

end Libx.Map
