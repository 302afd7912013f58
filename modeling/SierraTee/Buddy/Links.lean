import SierraTee.Buddy.Order

/-!
# The links of the allocation tree (`sw_buddy.c`)

The tree of a pool as it lies in memory: a node is named by its place, `none` is the null pointer,
and the header of the tree is a node of its own.  Every loop counts its turns down; `none` as a
result is a loop that has run out of turns, or an access through the null pointer.

The removal handles the left and the right child alike, so its parts have the side as a parameter.
-/

namespace SierraTee

/-- `struct sw_area` as the functions of the tree read it: its links and its address -/
structure AreaNode where
  parent : Option Nat
  lchild : Option Nat
  rchild : Option Nat
  memAddr : Nat

inductive Side where
  | left
  | right
  deriving DecidableEq

def Side.other : Side → Side
  | left => right
  | right => left

def AreaNode.child (a : AreaNode) : Side → Option Nat
  | .left => a.lchild
  | .right => a.rchild

def AreaNode.withChild (a : AreaNode) (node : Option Nat) : Side → AreaNode
  | .left => { a with lchild := node }
  | .right => { a with rchild := node }

abbrev AreaMemory := Nat → AreaNode

namespace AreaMemory
variable (m : AreaMemory)

def setChild (side : Side) (p : Nat) (node : Option Nat) : AreaMemory :=
  Function.update m p ((m p).withChild node side)

def setParent (i : Nat) (p : Option Nat) : AreaMemory :=
  Function.update m i { m i with parent := p }

def clearLinks (i : Nat) : AreaMemory := Function.update m i ⟨none, none, none, (m i).memAddr⟩

end AreaMemory

/-! ## adding and searching -/

/-- `parent->child = new_node; new_node->parent = parent` -/
def attach (m : AreaMemory) (side : Side) (parent newNode : Nat) : AreaMemory :=
  (m.setChild side parent (some newNode)).setParent newNode (some parent)

def addBtreeNode : Nat → AreaMemory → Nat → Nat → Option AreaMemory
  | 0, _, _, _ => none
  | fuel + 1, m, parent, newNode =>
    if (m newNode).memAddr < (m parent).memAddr then
      match (m parent).lchild with
      | some lchild => addBtreeNode fuel m lchild newNode
      | none => some (attach m .left parent newNode)
    else if (m parent).memAddr < (m newNode).memAddr then
      match (m parent).rchild with
      | some rchild => addBtreeNode fuel m rchild newNode
      | none => some (attach m .right parent newNode)
    else some m

/-- `search_btree_node`; the node that is found may be the header -/
def searchBtreeNode : Nat → AreaMemory → Option Nat → Nat → Option (Option Nat)
  | _, _, none, _ => some none
  | 0, _, some _, _ => none
  | fuel + 1, m, some node, data =>
    if (m node).memAddr = data then some (some node)
    else if data < (m node).memAddr then searchBtreeNode fuel m (m node).lchild data
    else searchBtreeNode fuel m (m node).rchild data

/-! ## removing -/

/-- `get_max_node` on the right and `get_min_node` on the left: the last node on the way down -/
def getFarNode (side : Side) : Nat → AreaMemory → Nat → Option Nat
  | 0, _, _ => none
  | fuel + 1, m, node =>
    match (m node).child side with
    | none => some node
    | some child => getFarNode side fuel m child

def getMinNode := getFarNode .left

/-- the link of the parent that leads to `delNode` leads to `node`; the link on the side `first` is
looked at first -/
def replaceChild (first : Side) (m : AreaMemory) (delNode : Nat) (node : Option Nat) :
    Option AreaMemory :=
  (m delNode).parent.map fun p =>
    if (m p).child first = some delNode then m.setChild first p node
    else if (m p).child first.other = some delNode then m.setChild first.other p node
    else m

def pullNode (side : Side) (m : AreaMemory) (node : Nat) : Option AreaMemory :=
  (m node).parent.map fun p =>
    match (m node).child side.other with
    | some child => (m.setChild side p (some child)).setParent child (some p)
    | none => m.setChild side p none

/-- `node` gets the child of the deleted node on one side; that there is none is a crash -/
def takeChild (side : Side) (m : AreaMemory) (node delNode : Nat) : Option AreaMemory :=
  ((m delNode).child side).map fun child =>
    (m.setChild side node (some child)).setParent child (some node)

/-- the last assignments: `node` has the parent of the deleted node, which loses its links -/
def replaceNode (m : AreaMemory) (node delNode : Nat) : AreaMemory :=
  (m.setParent node (m delNode).parent).clearLinks delNode

def removeBoth (fuel : Nat) (m : AreaMemory) (delNode rchild : Nat) : Option AreaMemory := do
  let minNode ← getMinNode fuel m rchild
  if minNode = rchild then
    let m1 ← replaceChild .right m delNode (some minNode)
    let m2 ← takeChild .left m1 minNode delNode
    return replaceNode m2 minNode delNode
  else
    let m1 ← replaceChild .right m delNode (some minNode)
    let m2 ← pullNode .left m1 minNode
    let m3 ← takeChild .left m2 minNode delNode
    let m4 ← takeChild .right m3 minNode delNode
    return replaceNode m4 minNode delNode

/-- the case of one child, which is on the given side: `get_max_node` of a left child, `get_min_node`
of a right one -/
def removeOne (side : Side) (fuel : Nat) (m : AreaMemory) (delNode child : Nat) :
    Option AreaMemory := do
  let farNode ← getFarNode side.other fuel m child
  if child = farNode then
    let m1 ← replaceChild .left m delNode (some farNode)
    return replaceNode m1 farNode delNode
  else
    let m1 ← replaceChild .left m delNode (some farNode)
    let m2 ← pullNode side.other m1 farNode
    let m3 ← takeChild side m2 farNode delNode
    return replaceNode m3 farNode delNode

def removeFound (fuel : Nat) (m : AreaMemory) (delNode : Nat) : Option AreaMemory :=
  match (m delNode).lchild, (m delNode).rchild with
  | some _, some rchild => removeBoth fuel m delNode rchild
  | none, none => (replaceChild .left m delNode none).map fun m1 => m1.clearLinks delNode
  | some lchild, none => removeOne .left fuel m delNode lchild
  | none, some rchild => removeOne .right fuel m delNode rchild

def removeBtreeNode : Nat → AreaMemory → Nat → Nat → Option AreaMemory
  | 0, _, _, _ => none
  | fuel + 1, m, parent, delNode =>
    if (m delNode).memAddr < (m parent).memAddr then
      match (m parent).lchild with
      | some lchild => removeBtreeNode fuel m lchild delNode
      | none => some m
    else if (m parent).memAddr < (m delNode).memAddr then
      match (m parent).rchild with
      | some rchild => removeBtreeNode fuel m rchild delNode
      | none => some m
    else removeFound fuel m delNode

end SierraTee
