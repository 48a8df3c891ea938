import Kivo.Clib.RedBlackTree
import Kivo.Engine.Data

/-!
# The red-black tree engine

`kvs_rbtree.c` is the textbook red-black tree with parent pointers and a
shared sentinel.  The model keeps the pointers: nodes live at addresses of a
heap, address `0` is the sentinel, and an update changes one field of one
node.  The parent field of the sentinel is written by `rbtree_transplant` and
read by `rbtree_delete_fixup`, so it is part of the state as well.

A `while` loop takes at most as many iterations as nodes were ever allocated;
that number is the fuel of the loops.
-/

namespace Kivo.Engine.RbtreeEngine

open Kivo.Clib.Memory
open Kivo.Clib.RedBlackTree
open Kivo.Engine.Data

/-! ## State -/

/-- `rbtree_node_binary_t`. -/
structure RbNode where
  color : Color
  left : Nat
  right : Nat
  parent : Nat
  entry : Entry
deriving DecidableEq, Repr

/-- `rbtree_binary_t` with its heap; `next` is the next free address. -/
structure KvsRbtree where
  nodes : Nat → RbNode
  root : Nat
  next : Nat

/-- The address of the sentinel. -/
def nil : Nat := 0

/-- The tree after `kvs_rbtree_create`. -/
def kvsRbtreeCreate : KvsRbtree :=
  { nodes := fun _ =>
      { color := .black
        left := nil
        right := nil
        parent := nil
        entry := { key := [], value := [], expireTime := 0 } }
    root := nil
    next := 1 }

/-- Change one node. -/
def KvsRbtree.update (T : KvsRbtree) (address : Nat)
    (change : RbNode → RbNode) : KvsRbtree :=
  { T with
    nodes := fun other =>
      if other = address then change (T.nodes other) else T.nodes other }

/-- `address->color = color`. -/
def KvsRbtree.setColor (T : KvsRbtree) (address : Nat) (color : Color) :
    KvsRbtree :=
  T.update address (fun node => { node with color := color })

/-- `address->left = child`. -/
def KvsRbtree.setLeft (T : KvsRbtree) (address child : Nat) : KvsRbtree :=
  T.update address (fun node => { node with left := child })

/-- `address->right = child`. -/
def KvsRbtree.setRight (T : KvsRbtree) (address child : Nat) : KvsRbtree :=
  T.update address (fun node => { node with right := child })

/-- `address->parent = parent`. -/
def KvsRbtree.setParent (T : KvsRbtree) (address parent : Nat) : KvsRbtree :=
  T.update address (fun node => { node with parent := parent })

/-- `T->root = root`. -/
def KvsRbtree.setRoot (T : KvsRbtree) (root : Nat) : KvsRbtree :=
  { T with root := root }

/-! ## Rotations and transplantation -/

/-- The pointer from above that refers to `old` is turned to `new`. -/
def KvsRbtree.relinkAbove (T : KvsRbtree) (old new : Nat) : KvsRbtree :=
  let parent := (T.nodes old).parent
  if parent = nil then T.setRoot new
  else if old = (T.nodes parent).left then T.setLeft parent new
  else T.setRight parent new

/-- `rbtree_left_rotate`. -/
def rbtreeLeftRotate (T : KvsRbtree) (x : Nat) : KvsRbtree :=
  let y := (T.nodes x).right
  let T := T.setRight x (T.nodes y).left
  let T :=
    if (T.nodes y).left ≠ nil then T.setParent (T.nodes y).left x else T
  let T := T.setParent y (T.nodes x).parent
  let T := T.relinkAbove x y
  let T := T.setLeft y x
  T.setParent x y

/-- The pointer from above that refers to `old` is turned to `new`; the test
for the right child comes first. -/
def KvsRbtree.relinkAboveRight (T : KvsRbtree) (old new : Nat) : KvsRbtree :=
  let parent := (T.nodes old).parent
  if parent = nil then T.setRoot new
  else if old = (T.nodes parent).right then T.setRight parent new
  else T.setLeft parent new

/-- `rbtree_right_rotate`. -/
def rbtreeRightRotate (T : KvsRbtree) (y : Nat) : KvsRbtree :=
  let x := (T.nodes y).left
  let T := T.setLeft y (T.nodes x).right
  let T :=
    if (T.nodes x).right ≠ nil then T.setParent (T.nodes x).right y else T
  let T := T.setParent x (T.nodes y).parent
  let T := T.relinkAboveRight y x
  let T := T.setRight x y
  T.setParent y x

/-- `rbtree_transplant`. -/
def rbtreeTransplant (T : KvsRbtree) (u v : Nat) : KvsRbtree :=
  (T.relinkAbove u v).setParent v (T.nodes u).parent

/-! ## Insertion -/

/-- The colours and the rotation that end the left branch of the insertion
loop. -/
def insertTurnLeft (T : KvsRbtree) (z : Nat) : KvsRbtree × Nat :=
  let T := T.setColor (T.nodes z).parent .black
  let T := T.setColor (T.nodes (T.nodes z).parent).parent .red
  (rbtreeRightRotate T (T.nodes (T.nodes z).parent).parent, z)

/-- The branch of the insertion loop in which the parent is a left child. -/
def insertFixupLeft (T : KvsRbtree) (z : Nat) : KvsRbtree × Nat :=
  let p := (T.nodes z).parent
  let g := (T.nodes p).parent
  let y := (T.nodes g).right
  if (T.nodes y).color = .red then
    (((T.setColor p .black).setColor y .black).setColor g .red, g)
  else if z = (T.nodes p).right then insertTurnLeft (rbtreeLeftRotate T p) p
  else insertTurnLeft T z

/-- The colours and the rotation that end the right branch of the insertion
loop. -/
def insertTurnRight (T : KvsRbtree) (z : Nat) : KvsRbtree × Nat :=
  let T := T.setColor (T.nodes z).parent .black
  let T := T.setColor (T.nodes (T.nodes z).parent).parent .red
  (rbtreeLeftRotate T (T.nodes (T.nodes z).parent).parent, z)

/-- The branch of the insertion loop in which the parent is a right child. -/
def insertFixupRight (T : KvsRbtree) (z : Nat) : KvsRbtree × Nat :=
  let p := (T.nodes z).parent
  let g := (T.nodes p).parent
  let y := (T.nodes g).left
  if (T.nodes y).color = .red then
    (((T.setColor p .black).setColor y .black).setColor g .red, g)
  else if z = (T.nodes p).left then insertTurnRight (rbtreeRightRotate T p) p
  else insertTurnRight T z

/-- The loop of `rbtree_insert_fixup`. -/
def insertFixupLoop : Nat → KvsRbtree → Nat → KvsRbtree
  | 0, T, _ => T
  | fuel + 1, T, z =>
      let p := (T.nodes z).parent
      if (T.nodes p).color = .red then
        let next :=
          if p = (T.nodes (T.nodes p).parent).left then insertFixupLeft T z
          else insertFixupRight T z
        insertFixupLoop fuel next.1 next.2
      else T

/-- `rbtree_insert_fixup`. -/
def rbtreeInsertFixup (T : KvsRbtree) (z : Nat) : KvsRbtree :=
  let T := insertFixupLoop T.next T z
  T.setColor T.root .black

/-! ## Search -/

/-- The loop of `rbtree_search`. -/
def searchLoop (T : KvsRbtree) (key : Bytes) : Nat → Nat → Nat
  | 0, _ => nil
  | fuel + 1, node =>
      if node = nil then nil
      else
        match kvDataCompare key (T.nodes node).entry.key with
        | .lt => searchLoop T key fuel (T.nodes node).left
        | .gt => searchLoop T key fuel (T.nodes node).right
        | .eq => node

/-- `rbtree_search`. -/
def rbtreeSearch (T : KvsRbtree) (key : Bytes) : Nat :=
  searchLoop T key T.next T.root

/-- The loop of `rbtree_find_parent`: the node, `*parent_out`, `*cmp_out`. -/
def findParentLoop (T : KvsRbtree) (key : Bytes) :
    Nat → Nat → Nat → Ordering → Nat × Nat × Ordering
  | 0, _, parent, cmp => (nil, parent, cmp)
  | fuel + 1, x, parent, cmp =>
      if x = nil then (nil, parent, cmp)
      else
        match kvDataCompare key (T.nodes x).entry.key with
        | .lt => findParentLoop T key fuel (T.nodes x).left x .lt
        | .gt => findParentLoop T key fuel (T.nodes x).right x .gt
        | .eq => (x, x, .eq)

/-- `rbtree_find_parent`. -/
def rbtreeFindParent (T : KvsRbtree) (key : Bytes) : Nat × Nat × Ordering :=
  findParentLoop T key T.next T.root nil .eq

/-! ## Deletion -/

/-- The loop of `rbtree_mini`. -/
def miniLoop (T : KvsRbtree) : Nat → Nat → Nat
  | 0, x => x
  | fuel + 1, x =>
      if (T.nodes x).left ≠ nil then miniLoop T fuel (T.nodes x).left else x

/-- `rbtree_mini`. -/
def rbtreeMini (T : KvsRbtree) (x : Nat) : Nat :=
  miniLoop T T.next x

/-- The last case of the left branch of the deletion loop. -/
def deleteFinishLeft (T : KvsRbtree) (x w : Nat) : KvsRbtree × Nat :=
  let T := T.setColor w (T.nodes (T.nodes x).parent).color
  let T := T.setColor (T.nodes x).parent .black
  let T := T.setColor (T.nodes w).right .black
  let T := rbtreeLeftRotate T (T.nodes x).parent
  (T, T.root)

/-- The cases of the left branch with a black sibling `w`. -/
def deleteBesideLeft (T : KvsRbtree) (x w : Nat) : KvsRbtree × Nat :=
  if (T.nodes (T.nodes w).left).color = .black ∧
      (T.nodes (T.nodes w).right).color = .black then
    (T.setColor w .red, (T.nodes x).parent)
  else if (T.nodes (T.nodes w).right).color = .black then
    let T := T.setColor (T.nodes w).left .black
    let T := T.setColor w .red
    let T := rbtreeRightRotate T w
    deleteFinishLeft T x (T.nodes (T.nodes x).parent).right
  else deleteFinishLeft T x w

/-- The branch of the deletion loop in which `x` is a left child. -/
def deleteFixupLeft (T : KvsRbtree) (x : Nat) : KvsRbtree × Nat :=
  let w := (T.nodes (T.nodes x).parent).right
  if (T.nodes w).color = .red then
    let T := T.setColor w .black
    let T := T.setColor (T.nodes x).parent .red
    let T := rbtreeLeftRotate T (T.nodes x).parent
    deleteBesideLeft T x (T.nodes (T.nodes x).parent).right
  else deleteBesideLeft T x w

/-- The last case of the right branch of the deletion loop. -/
def deleteFinishRight (T : KvsRbtree) (x w : Nat) : KvsRbtree × Nat :=
  let T := T.setColor w (T.nodes (T.nodes x).parent).color
  let T := T.setColor (T.nodes x).parent .black
  let T := T.setColor (T.nodes w).left .black
  let T := rbtreeRightRotate T (T.nodes x).parent
  (T, T.root)

/-- The cases of the right branch with a black sibling `w`. -/
def deleteBesideRight (T : KvsRbtree) (x w : Nat) : KvsRbtree × Nat :=
  if (T.nodes (T.nodes w).left).color = .black ∧
      (T.nodes (T.nodes w).right).color = .black then
    (T.setColor w .red, (T.nodes x).parent)
  else if (T.nodes (T.nodes w).left).color = .black then
    let T := T.setColor (T.nodes w).right .black
    let T := T.setColor w .red
    let T := rbtreeLeftRotate T w
    deleteFinishRight T x (T.nodes (T.nodes x).parent).left
  else deleteFinishRight T x w

/-- The branch of the deletion loop in which `x` is a right child. -/
def deleteFixupRight (T : KvsRbtree) (x : Nat) : KvsRbtree × Nat :=
  let w := (T.nodes (T.nodes x).parent).left
  if (T.nodes w).color = .red then
    let T := T.setColor w .black
    let T := T.setColor (T.nodes x).parent .red
    let T := rbtreeRightRotate T (T.nodes x).parent
    deleteBesideRight T x (T.nodes (T.nodes x).parent).left
  else deleteBesideRight T x w

/-- The loop of `rbtree_delete_fixup`, with the node it ends at. -/
def deleteFixupLoop : Nat → KvsRbtree → Nat → KvsRbtree × Nat
  | 0, T, x => (T, x)
  | fuel + 1, T, x =>
      if x ≠ T.root ∧ (T.nodes x).color = .black then
        let next :=
          if x = (T.nodes (T.nodes x).parent).left then deleteFixupLeft T x
          else deleteFixupRight T x
        deleteFixupLoop fuel next.1 next.2
      else (T, x)

/-- `rbtree_delete_fixup`. -/
def rbtreeDeleteFixup (T : KvsRbtree) (x : Nat) : KvsRbtree :=
  let ended := deleteFixupLoop (T.next + 1) T x
  ended.1.setColor ended.2 .black

/-- The links of `rbtree_delete`: the tree, the node that took over, and the
colour that was taken out. -/
def rbtreeUnlink (T : KvsRbtree) (z : Nat) : KvsRbtree × Nat × Color :=
  if (T.nodes z).left = nil then
    let x := (T.nodes z).right
    (rbtreeTransplant T z (T.nodes z).right, x, (T.nodes z).color)
  else if (T.nodes z).right = nil then
    let x := (T.nodes z).left
    (rbtreeTransplant T z (T.nodes z).left, x, (T.nodes z).color)
  else
    let y := rbtreeMini T (T.nodes z).right
    let original := (T.nodes y).color
    let x := (T.nodes y).right
    let T :=
      if (T.nodes y).parent = z then T.setParent x y
      else
        let T := rbtreeTransplant T y (T.nodes y).right
        let T := T.setRight y (T.nodes z).right
        T.setParent (T.nodes y).right y
    let T := rbtreeTransplant T z y
    let T := T.setLeft y (T.nodes z).left
    let T := T.setParent (T.nodes y).left y
    (T.setColor y (T.nodes z).color, x, original)

/-- `rbtree_delete`. -/
def rbtreeDelete (T : KvsRbtree) (z : Nat) : KvsRbtree :=
  let unlinked := rbtreeUnlink T z
  if unlinked.2.2 = .black then
    rbtreeDeleteFixup unlinked.1 unlinked.2.1
  else unlinked.1

/-! ## Public interface -/

/-- Hang a new red node below `parent` and repair the tree. -/
def rbtreeInsertAt (T : KvsRbtree) (parent : Nat) (cmp : Ordering)
    (entry : Entry) : KvsRbtree :=
  let node := T.next
  let T : KvsRbtree :=
    { T with
      nodes := fun address =>
        if address = node then
          { color := .red
            left := nil
            right := nil
            parent := parent
            entry := entry }
        else T.nodes address
      next := T.next + 1 }
  let T :=
    if parent = nil then T.setRoot node
    else if cmp = .lt then T.setLeft parent node
    else T.setRight parent node
  rbtreeInsertFixup T node

/-- `kvs_rbtree_set`, with its return value. -/
def kvsRbtreeSet (T : KvsRbtree) (key value : Bytes) (expireTime : Int) :
    KvsRbtree × Int :=
  let entry : Entry :=
    { key := key, value := value, expireTime := expireTime }
  let found := rbtreeFindParent T key
  if found.1 ≠ nil then
    if value.length ≤ (T.nodes found.1).entry.value.length then
      (T.update found.1 (fun node =>
        { node with
          entry :=
            { node.entry with
              value := value
              expireTime := expireTime } }), 0)
    else
      let T := rbtreeDelete T found.1
      let again := rbtreeFindParent T key
      if again.1 ≠ nil then (T, -1)
      else (rbtreeInsertAt T again.2.1 again.2.2 entry, 0)
  else (rbtreeInsertAt T found.2.1 found.2.2 entry, 0)

/-- `kvs_rbtree_mod`. -/
def kvsRbtreeMod (T : KvsRbtree) (key value : Bytes) (expireTime : Int) :
    KvsRbtree × Int :=
  kvsRbtreeSet T key value expireTime

/-- `kvs_rbtree_del`. -/
def kvsRbtreeDel (T : KvsRbtree) (key : Bytes) : KvsRbtree × Int :=
  let node := rbtreeSearch T key
  if node = nil then (T, 1) else (rbtreeDelete T node, 0)

/-- `kvs_rbtree_get`, with the lazy deletion of a key whose time has
passed. -/
def kvsRbtreeGet (enableTtl : Bool) (now : Int) (T : KvsRbtree)
    (key : Bytes) : KvsRbtree × Option Bytes :=
  let node := rbtreeSearch T key
  if node = nil then (T, none)
  else
    let entry := (T.nodes node).entry
    if enableTtl ∧ 0 < entry.expireTime ∧ entry.expireTime < now then
      ((kvsRbtreeDel T key).1, none)
    else (T, some entry.value)

/-- `kvs_rbtree_exist`: `0` for a key that is there. -/
def kvsRbtreeExist (enableTtl : Bool) (now : Int) (T : KvsRbtree)
    (key : Bytes) : KvsRbtree × Int :=
  let found := kvsRbtreeGet enableTtl now T key
  (found.1, if found.2 = none then 1 else 0)

/-- `kvs_rbtree_del_if_expired`. -/
def kvsRbtreeDelIfExpired (T : KvsRbtree) (key : Bytes)
    (expectedExpire : Int) : KvsRbtree × Bool :=
  let node := rbtreeSearch T key
  if node = nil then (T, false)
  else if (T.nodes node).entry.expireTime ≠ expectedExpire then (T, false)
  else ((kvsRbtreeDel T key).1, true)

/-- `rbtree_foreach_node`: the entries the callback is given, in order. -/
def rbtreeForeachNode (T : KvsRbtree) (now : Int) (checkExpire : Bool) :
    Nat → Nat → List Entry
  | 0, _ => []
  | fuel + 1, node =>
      if node = nil then []
      else
        let entry := (T.nodes node).entry
        rbtreeForeachNode T now checkExpire fuel (T.nodes node).left ++
          (if Expired checkExpire now entry.expireTime then [] else [entry]) ++
          rbtreeForeachNode T now checkExpire fuel (T.nodes node).right

/-- `kvs_rbtree_foreach`. -/
def kvsRbtreeForeach (enableTtl : Bool) (now : Int) (T : KvsRbtree) :
    List Entry :=
  rbtreeForeachNode T now enableTtl T.next T.root

/-- The order in which `rbtree_foreach_node` visits the nodes. -/
def foreachNode (T : KvsRbtree) : Nat → Nat → List Nat
  | 0, _ => []
  | fuel + 1, node =>
      if node = nil then []
      else
        foreachNode T fuel (T.nodes node).left ++
          node :: foreachNode T fuel (T.nodes node).right

/-- The addresses of the nodes, in the order of `kvs_rbtree_foreach`. -/
def KvsRbtree.addresses (T : KvsRbtree) : List Nat :=
  foreachNode T T.next T.root

/-- The entries, in the order of `kvs_rbtree_foreach`. -/
def KvsRbtree.entries (T : KvsRbtree) : List Entry :=
  T.addresses.map (fun address => (T.nodes address).entry)

end Kivo.Engine.RbtreeEngine
