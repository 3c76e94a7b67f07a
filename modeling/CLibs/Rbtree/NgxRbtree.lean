import CLibs.General.RedBlack
import Mathlib.Logic.Function.Basic

/-!
# The red-black tree

`ngx_rbtree.c` and `ngx_rbtree.h` on a memory of nodes. Using a null pointer makes a
function fail; a loop also fails when it runs out of `fuel`. Where the source has a
branch and its mirror image, the model has one definition that takes the side.
-/

set_option autoImplicit false

namespace CLibs.Rbtree

open General

abbrev Ptr := Nat

def null : Ptr := 0

/-- A node, with what the structure around it holds. -/
structure Node (Data : Type) where
  key : UInt32
  left : Ptr
  right : Ptr
  parent : Ptr
  color : Color
  data : Data

/-- A tree and the memory that its nodes and its sentinel are in. -/
structure NgxRbtree (Data : Type) where
  root : Ptr
  sentinel : Ptr
  mem : Ptr → Node Data

variable {Data : Type}

namespace Node

def child (node : Node Data) : Side → Ptr
  | .left => node.left
  | .right => node.right

def setChild (side : Side) (child : Ptr) (node : Node Data) : Node Data :=
  match side with
  | .left => { node with left := child }
  | .right => { node with right := child }

def setParent (parent : Ptr) (node : Node Data) : Node Data := { node with parent := parent }

def setColor (color : Color) (node : Node Data) : Node Data := { node with color := color }

/-- What an insert callback compares. -/
def item (node : Node Data) : UInt32 × Data := (node.key, node.data)

end Node

namespace NgxRbtree

def load (s : NgxRbtree Data) (p : Ptr) : Option (Node Data) :=
  if p = null then none else some (s.mem p)

def store (s : NgxRbtree Data) (p : Ptr) (update : Node Data → Node Data) :
    Option (NgxRbtree Data) :=
  if p = null then none
  else some { s with mem := Function.update s.mem p (update (s.mem p)) }

/-- Puts `temp` in the place of `node` below `parent`; `side` is looked at first. -/
def relink (side : Side) (s : NgxRbtree Data) (parent node temp : Ptr) :
    Option (NgxRbtree Data) := do
  if node = (← s.load parent).child side then s.store parent (Node.setChild side temp)
  else s.store parent (Node.setChild side.other temp)

/-- `relink`, or the root is `temp` from now on. -/
def replace (side : Side) (s : NgxRbtree Data) (node temp : Ptr) : Option (NgxRbtree Data) := do
  if node = s.root then pure { s with root := temp }
  else s.relink side (← s.load node).parent node temp

def adopt (s : NgxRbtree Data) (child parent : Ptr) : Option (NgxRbtree Data) :=
  if child = s.sentinel then some s else s.store child (Node.setParent parent)

/-- A node changes places with its child on the other side. -/
def rotate (side : Side) (s : NgxRbtree Data) (node : Ptr) : Option (NgxRbtree Data) := do
  let temp := (← s.load node).child side.other
  let inner := (← s.load temp).child side
  let s ← s.store node (Node.setChild side.other inner)
  let s ← s.adopt ((← s.load temp).child side) node
  let parent := (← s.load node).parent
  let s ← s.store temp (Node.setParent parent)
  let s ← s.replace side node temp
  let s ← s.store temp (Node.setChild side node)
  s.store node (Node.setParent temp)

def ngxRbtreeLeftRotate (s : NgxRbtree Data) (node : Ptr) : Option (NgxRbtree Data) :=
  s.rotate .left node

def ngxRbtreeRightRotate (s : NgxRbtree Data) (node : Ptr) : Option (NgxRbtree Data) :=
  s.rotate .right node

/-! ## Insertion -/

/-- The loop of the insert callbacks: the place for a new node. -/
def descend (less : UInt32 × Data → UInt32 × Data → Bool) :
    Nat → NgxRbtree Data → Ptr → Ptr → Option (Ptr × Side)
  | 0, _, _, _ => none
  | fuel + 1, s, temp, node => do
      let side := if less (← s.load node).item (← s.load temp).item then .left else .right
      let next := (← s.load temp).child side
      if next = s.sentinel then pure (temp, side) else descend less fuel s next node

/-- An insert callback: a new leaf below `temp`. -/
def insertLeaf (less : UInt32 × Data → UInt32 × Data → Bool) (fuel : Nat) (s : NgxRbtree Data)
    (temp node : Ptr) : Option (NgxRbtree Data) := do
  let (temp, side) ← descend less fuel s temp node
  let s ← s.store temp (Node.setChild side node)
  let s ← s.store node (Node.setParent temp)
  let s ← s.store node (Node.setChild .left s.sentinel)
  let s ← s.store node (Node.setChild .right s.sentinel)
  s.store node (Node.setColor .red)

def ngxRbtreeInsertValue : Nat → NgxRbtree Data → Ptr → Ptr → Option (NgxRbtree Data) :=
  insertLeaf fun node temp => node.1 < temp.1

/-- The sign of the difference is compared, so that timer values may overflow. -/
def ngxRbtreeInsertTimerValue :
    Nat → NgxRbtree Data → Ptr → Ptr → Option (NgxRbtree Data) :=
  insertLeaf fun node temp => (node.1 - temp.1).toInt32 < 0

/-- A node on the inner side of its parent changes places with it. -/
def straighten (side : Side) (s : NgxRbtree Data) (node : Ptr) :
    Option (NgxRbtree Data × Ptr) := do
  let parent := (← s.load node).parent
  if node = (← s.load parent).child side.other then
    let s ← s.rotate side parent
    pure (s, parent)
  else pure (s, node)

/-- The parent of the node takes the place and the colour of its own parent. -/
def raiseParent (side : Side) (s : NgxRbtree Data) (node : Ptr) :
    Option (NgxRbtree Data × Ptr) := do
  let parent := (← s.load node).parent
  let s ← s.store parent (Node.setColor .black)
  let grand := (← s.load parent).parent
  let s ← s.store grand (Node.setColor .red)
  let s ← s.rotate side.other grand
  pure (s, node)

/-- The body of the loop of `ngx_rbtree_insert`, where the parent of the node is on
`side` of its own parent. -/
def insertCase (side : Side) (s : NgxRbtree Data) (node : Ptr) :
    Option (NgxRbtree Data × Ptr) := do
  let parent := (← s.load node).parent
  let grand := (← s.load parent).parent
  let temp := (← s.load grand).child side.other
  if (← s.load temp).color = .red then
    let s ← s.store parent (Node.setColor .black)
    let s ← s.store temp (Node.setColor .black)
    let s ← s.store grand (Node.setColor .red)
    pure (s, grand)
  else
    let (s, node) ← s.straighten side node
    s.raiseParent side node

/-- The loop of `ngx_rbtree_insert`. -/
def insertFixup : Nat → NgxRbtree Data → Ptr → Option (NgxRbtree Data)
  | 0, _, _ => none
  | fuel + 1, s, node => do
      if node = s.root then pure s
      else
        let parent := (← s.load node).parent
        if (← s.load parent).color = .black then pure s
        else
          let grand := (← s.load parent).parent
          if parent = (← s.load grand).left then
            let (s, node) ← s.insertCase .left node
            insertFixup fuel s node
          else
            let (s, node) ← s.insertCase .right node
            insertFixup fuel s node

def ngxRbtreeInsert (insert : Nat → NgxRbtree Data → Ptr → Ptr → Option (NgxRbtree Data))
    (fuel : Nat) (s : NgxRbtree Data) (node : Ptr) : Option (NgxRbtree Data) := do
  if s.root = s.sentinel then
    let s ← s.store node (Node.setParent null)
    let s ← s.store node (Node.setChild .left s.sentinel)
    let s ← s.store node (Node.setChild .right s.sentinel)
    let s ← s.store node (Node.setColor .black)
    pure { s with root := node }
  else
    let s ← insert fuel s s.root node
    let s ← insertFixup fuel s node
    s.store s.root (Node.setColor .black)

/-! ## Deletion -/

def ngxRbtreeMin : Nat → NgxRbtree Data → Ptr → Option Ptr
  | 0, _, _ => none
  | fuel + 1, s, node => do
      let left := (← s.load node).left
      if left = s.sentinel then pure node else ngxRbtreeMin fuel s left

/-- The node that leaves its place, and what comes into that place. -/
def chooseSubst (fuel : Nat) (s : NgxRbtree Data) (node : Ptr) : Option (Ptr × Ptr) := do
  let left := (← s.load node).left
  let right := (← s.load node).right
  if left = s.sentinel then pure (node, right)
  else if right = s.sentinel then pure (node, left)
  else
    let subst ← ngxRbtreeMin fuel s right
    let inner := (← s.load subst).left
    if inner = s.sentinel then pure (subst, (← s.load subst).right) else pure (subst, inner)

/-- `subst` takes the place of `node`. -/
def moveInto (s : NgxRbtree Data) (node subst : Ptr) : Option (NgxRbtree Data) := do
  let left := (← s.load node).left
  let s ← s.store subst (Node.setChild .left left)
  let right := (← s.load node).right
  let s ← s.store subst (Node.setChild .right right)
  let parent := (← s.load node).parent
  let s ← s.store subst (Node.setParent parent)
  let color := (← s.load node).color
  let s ← s.store subst (Node.setColor color)
  let s ← s.replace .left node subst
  let s ← s.adopt (← s.load subst).left subst
  s.adopt (← s.load subst).right subst

def clear (node : Node Data) : Node Data :=
  { node with left := null, right := null, parent := null, key := 0 }

/-- The sibling of `temp` is red: it goes up, and a nephew is the sibling. -/
def redSibling (side : Side) (s : NgxRbtree Data) (temp w : Ptr) :
    Option (NgxRbtree Data × Ptr) := do
  if (← s.load w).color = .red then
    let s ← s.store w (Node.setColor .black)
    let parent := (← s.load temp).parent
    let s ← s.store parent (Node.setColor .red)
    let s ← s.rotate side parent
    let parent := (← s.load temp).parent
    pure (s, (← s.load parent).child side.other)
  else pure (s, w)

/-- The outer nephew is black: the inner one goes up. -/
def innerNephew (side : Side) (s : NgxRbtree Data) (temp w : Ptr) :
    Option (NgxRbtree Data × Ptr) := do
  let outer := (← s.load w).child side.other
  if (← s.load outer).color = .black then
    let inner := (← s.load w).child side
    let s ← s.store inner (Node.setColor .black)
    let s ← s.store w (Node.setColor .red)
    let s ← s.rotate side.other w
    let parent := (← s.load temp).parent
    pure (s, (← s.load parent).child side.other)
  else pure (s, w)

/-- The sibling goes up for good. -/
def lastRotation (side : Side) (s : NgxRbtree Data) (temp w : Ptr) :
    Option (NgxRbtree Data × Ptr) := do
  let parent := (← s.load temp).parent
  let color := (← s.load parent).color
  let s ← s.store w (Node.setColor color)
  let s ← s.store parent (Node.setColor .black)
  let outer := (← s.load w).child side.other
  let s ← s.store outer (Node.setColor .black)
  let s ← s.rotate side parent
  pure (s, s.root)

def bothBlack (s : NgxRbtree Data) (w : Ptr) : Option Bool := do
  let left := (← s.load w).left
  if (← s.load left).color = .black then
    let right := (← s.load w).right
    pure ((← s.load right).color = .black)
  else pure false

/-- The body of the loop of `ngx_rbtree_delete`, where `temp` is on `side` of its
parent. -/
def deleteCase (side : Side) (s : NgxRbtree Data) (temp : Ptr) :
    Option (NgxRbtree Data × Ptr) := do
  let parent := (← s.load temp).parent
  let w := (← s.load parent).child side.other
  let (s, w) ← s.redSibling side temp w
  if ← s.bothBlack w then
    let s ← s.store w (Node.setColor .red)
    pure (s, (← s.load temp).parent)
  else
    let (s, w) ← s.innerNephew side temp w
    s.lastRotation side temp w

/-- The loop of `ngx_rbtree_delete`. -/
def deleteFixup : Nat → NgxRbtree Data → Ptr → Option (NgxRbtree Data × Ptr)
  | 0, _, _ => none
  | fuel + 1, s, temp => do
      if temp = s.root then pure (s, temp)
      else if (← s.load temp).color = .red then pure (s, temp)
      else
        let parent := (← s.load temp).parent
        if temp = (← s.load parent).left then
          let (s, temp) ← s.deleteCase .left temp
          deleteFixup fuel s temp
        else
          let (s, temp) ← s.deleteCase .right temp
          deleteFixup fuel s temp

/-- The part of `ngx_rbtree_delete` that takes a node out of the tree. -/
def unlink (s : NgxRbtree Data) (node subst temp : Ptr) : Option (NgxRbtree Data) := do
  let s ← s.relink .left (← s.load subst).parent subst temp
  let parent := (← s.load subst).parent
  let s ←
    if subst = node then s.store temp (Node.setParent parent)
    else do
      let s ←
        if parent = node then s.store temp (Node.setParent subst)
        else s.store temp (Node.setParent parent)
      s.moveInto node subst
  s.store node clear

/-- A black node was taken out: the loop makes up for it. -/
def repair (fuel : Nat) (s : NgxRbtree Data) (color : Color) (temp : Ptr) :
    Option (NgxRbtree Data) := do
  if color = .red then pure s
  else
    let (s, temp) ← deleteFixup fuel s temp
    s.store temp (Node.setColor .black)

def ngxRbtreeDelete (fuel : Nat) (s : NgxRbtree Data) (node : Ptr) :
    Option (NgxRbtree Data) := do
  let (subst, temp) ← s.chooseSubst fuel node
  if subst = s.root then
    let s ← { s with root := temp }.store temp (Node.setColor .black)
    s.store node clear
  else
    let color := (← s.load subst).color
    let s ← s.unlink node subst temp
    s.repair fuel color temp

/-- `ngx_rbtree_init`. -/
def ngxRbtreeInit (mem : Ptr → Node Data) (sentinel : Ptr) : Option (NgxRbtree Data) :=
  store { root := sentinel, sentinel := sentinel, mem := mem } sentinel (Node.setColor .black)

end NgxRbtree

end CLibs.Rbtree
