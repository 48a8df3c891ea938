import Kivo.Engine.RbtreeEngine

/-!
# The tree in the heap of the red-black engine

The heap represents a tree when every node stores the colour and the links
that its place in the tree asks for.  The representation is stated for a tree
in the hole of a path, since the C code works at a node and climbs from there;
moving the focus up or down a frame changes nothing.  Colouring a node and
rotating at a node are shown to act on the tree as drawn in a textbook, and
the right rotation is the left rotation in the mirror.
-/

namespace Kivo.Engine.RbtreeShape

open Kivo.Clib.RedBlackTree
open Kivo.Engine.Data
open Kivo.Engine.RbtreeEngine

/-! ## Setters -/

section Setters

variable (T : KvsRbtree) (address other : Nat)

@[simp]
theorem setColor_nodes (color : Color) :
    (T.setColor address color).nodes other =
      if other = address then { T.nodes other with color := color }
      else T.nodes other :=
  rfl

@[simp]
theorem setLeft_nodes (child : Nat) :
    (T.setLeft address child).nodes other =
      if other = address then { T.nodes other with left := child }
      else T.nodes other :=
  rfl

@[simp]
theorem setRight_nodes (child : Nat) :
    (T.setRight address child).nodes other =
      if other = address then { T.nodes other with right := child }
      else T.nodes other :=
  rfl

@[simp]
theorem setParent_nodes (parent : Nat) :
    (T.setParent address parent).nodes other =
      if other = address then { T.nodes other with parent := parent }
      else T.nodes other :=
  rfl

@[simp]
theorem setRoot_nodes (root : Nat) : (T.setRoot root).nodes = T.nodes :=
  rfl

@[simp]
theorem setColor_root (color : Color) :
    (T.setColor address color).root = T.root :=
  rfl

@[simp]
theorem setLeft_root (child : Nat) : (T.setLeft address child).root = T.root :=
  rfl

@[simp]
theorem setRight_root (child : Nat) :
    (T.setRight address child).root = T.root :=
  rfl

@[simp]
theorem setParent_root (parent : Nat) :
    (T.setParent address parent).root = T.root :=
  rfl

@[simp]
theorem setRoot_root (root : Nat) : (T.setRoot root).root = root :=
  rfl

end Setters

/-! ## What stays -/

/-- Two heaps with the same entries at the same addresses. -/
structure SameEntries (before after : KvsRbtree) : Prop where
  next : after.next = before.next
  entry : ∀ address,
    (after.nodes address).entry = (before.nodes address).entry

theorem SameEntries.refl (T : KvsRbtree) : SameEntries T T :=
  ⟨rfl, fun _ => rfl⟩

theorem SameEntries.trans {first second third : KvsRbtree}
    (front : SameEntries first second) (back : SameEntries second third) :
    SameEntries first third :=
  ⟨back.next.trans front.next,
    fun address => (back.entry address).trans (front.entry address)⟩

theorem sameEntries_update (T : KvsRbtree) (address : Nat)
    {change : RbNode → RbNode}
    (keeps : ∀ node, (change node).entry = node.entry) :
    SameEntries T (T.update address change) := by
  refine ⟨rfl, ?_⟩
  intro other
  rw [KvsRbtree.update]
  dsimp only
  split_ifs
  · exact keeps _
  · rfl

theorem sameEntries_setColor (T : KvsRbtree) (address : Nat)
    (color : Color) :
    SameEntries T (T.setColor address color) :=
  sameEntries_update T address (fun _ => rfl)

theorem sameEntries_setLeft (T : KvsRbtree) (address child : Nat) :
    SameEntries T (T.setLeft address child) :=
  sameEntries_update T address (fun _ => rfl)

theorem sameEntries_setRight (T : KvsRbtree) (address child : Nat) :
    SameEntries T (T.setRight address child) :=
  sameEntries_update T address (fun _ => rfl)

theorem sameEntries_setParent (T : KvsRbtree) (address parent : Nat) :
    SameEntries T (T.setParent address parent) :=
  sameEntries_update T address (fun _ => rfl)

/-! ## Representation -/

/-- The address at the root of a tree, the sentinel for a leaf. -/
def rootOf : ColorTree Nat → Nat
  | .leaf => nil
  | .node _ _ address _ => address

theorem rootOf_node (color : Color) (left right : ColorTree Nat)
    (address : Nat) :
    rootOf (.node color left address right) = address :=
  rfl

/-- The address above a hole, the sentinel at the top. -/
def pathParent : List (Frame Nat) → Nat
  | [] => nil
  | frame :: _ => frame.label

/-- A node with its colour and links. -/
structure NodeIs (nodes : Nat → RbNode) (address : Nat) (color : Color)
    (parent left right : Nat) : Prop where
  real : address ≠ nil
  color : (nodes address).color = color
  parent : (nodes address).parent = parent
  left : (nodes address).left = left
  right : (nodes address).right = right

/-- The heap holds a tree below a parent. -/
def Rep (nodes : Nat → RbNode) : Nat → ColorTree Nat → Prop
  | _, .leaf => True
  | parent, .node color left address right =>
      NodeIs nodes address color parent (rootOf left) (rootOf right) ∧
        Rep nodes address left ∧ Rep nodes address right

/-- The heap holds a path, with the given address in its hole. -/
def RepPath (T : KvsRbtree) : Nat → List (Frame Nat) → Prop
  | hole, [] => T.root = hole
  | hole, .onLeft color address right :: rest =>
      NodeIs T.nodes address color (pathParent rest) hole (rootOf right) ∧
        Rep T.nodes address right ∧ RepPath T address rest
  | hole, .onRight color left address :: rest =>
      NodeIs T.nodes address color (pathParent rest) (rootOf left) hole ∧
        Rep T.nodes address left ∧ RepPath T address rest

/-- The sentinel is black and has no children. -/
structure SentinelOk (T : KvsRbtree) : Prop where
  color : (T.nodes nil).color = .black
  left : (T.nodes nil).left = nil
  right : (T.nodes nil).right = nil

/-- The heap holds a path and a tree in its hole, at distinct addresses. -/
structure Focus (T : KvsRbtree) (path : List (Frame Nat))
    (tree : ColorTree Nat) : Prop where
  around : RepPath T (rootOf tree) path
  inside : Rep T.nodes (pathParent path) tree
  nodup : (tree.inorder ++ labelsAround path).Nodup
  sentinel : SentinelOk T

theorem NodeIs.congr {nodes nodes' : Nat → RbNode} {address : Nat}
    {color : Color} {parent left right : Nat}
    (node : NodeIs nodes address color parent left right)
    (same : nodes' address = nodes address) :
    NodeIs nodes' address color parent left right :=
  ⟨node.real, by rw [same, node.color], by rw [same, node.parent],
    by rw [same, node.left], by rw [same, node.right]⟩

/-- A tree is held by the nodes at its own addresses. -/
theorem Rep.congr {nodes nodes' : Nat → RbNode} {parent : Nat}
    {tree : ColorTree Nat} (rep : Rep nodes parent tree)
    (same : ∀ address ∈ tree.inorder, nodes' address = nodes address) :
    Rep nodes' parent tree := by
  induction tree generalizing parent with
  | leaf => trivial
  | node color left address right inductionLeft inductionRight =>
      obtain ⟨node, onLeft, onRight⟩ := rep
      refine ⟨node.congr (same address (by simp [ColorTree.inorder])),
        inductionLeft onLeft ?_, inductionRight onRight ?_⟩
      · intro other member
        exact same other (by simp [ColorTree.inorder, member])
      · intro other member
        exact same other (by simp [ColorTree.inorder, member])

/-- A path is held by the nodes at its own addresses and the root. -/
theorem RepPath.congr {T T' : KvsRbtree} {hole : Nat}
    {path : List (Frame Nat)} (rep : RepPath T hole path)
    (root : T'.root = T.root)
    (same : ∀ address ∈ labelsAround path,
      T'.nodes address = T.nodes address) :
    RepPath T' hole path := by
  induction path generalizing hole with
  | nil => exact root.trans rep
  | cons frame path induction =>
      cases frame with
      | onLeft color address right =>
          obtain ⟨node, sibling, above⟩ := rep
          refine ⟨node.congr (same address (by simp [labelsAround])),
            sibling.congr ?_, induction above ?_⟩
          · intro other member
            exact same other (by simp [labelsAround, member])
          · intro other member
            exact same other (by simp [labelsAround, member])
      | onRight color left address =>
          obtain ⟨node, sibling, above⟩ := rep
          refine ⟨node.congr (same address (by simp [labelsAround])),
            sibling.congr ?_, induction above ?_⟩
          · intro other member
            exact same other (by simp [labelsAround, member])
          · intro other member
            exact same other (by simp [labelsAround, member])

theorem Rep.real {nodes : Nat → RbNode} {parent : Nat} {tree : ColorTree Nat}
    (rep : Rep nodes parent tree) {address : Nat}
    (member : address ∈ tree.inorder) :
    address ≠ nil := by
  induction tree generalizing parent with
  | leaf => exact absurd member List.not_mem_nil
  | node color left own right inductionLeft inductionRight =>
      obtain ⟨node, onLeft, onRight⟩ := rep
      rcases List.mem_append.mp member with member | member
      · exact inductionLeft onLeft member
      · rcases List.mem_cons.mp member with rfl | member
        · exact node.real
        · exact inductionRight onRight member

theorem RepPath.real {T : KvsRbtree} {hole : Nat} {path : List (Frame Nat)}
    (rep : RepPath T hole path) {address : Nat}
    (member : address ∈ labelsAround path) :
    address ≠ nil := by
  induction path generalizing hole with
  | nil => exact absurd member List.not_mem_nil
  | cons frame path induction =>
      cases frame with
      | onLeft color own right =>
          obtain ⟨node, sibling, above⟩ := rep
          rcases List.mem_cons.mp member with rfl | member
          · exact node.real
          · rcases List.mem_append.mp member with member | member
            · exact sibling.real member
            · exact induction above member
      | onRight color left own =>
          obtain ⟨node, sibling, above⟩ := rep
          rcases List.mem_cons.mp member with rfl | member
          · exact node.real
          · rcases List.mem_append.mp member with member | member
            · exact sibling.real member
            · exact induction above member

/-- The root lies on every path that is not empty. -/
theorem RepPath.root_mem {T : KvsRbtree} {hole : Nat}
    {path : List (Frame Nat)} (rep : RepPath T hole path)
    (proper : path ≠ []) :
    T.root ∈ labelsAround path := by
  induction path generalizing hole with
  | nil => exact absurd rfl proper
  | cons frame path induction =>
      cases path with
      | nil =>
          cases frame with
          | onLeft color own right =>
              rw [show T.root = own from rep.2.2]
              exact List.mem_cons_self
          | onRight color left own =>
              rw [show T.root = own from rep.2.2]
              exact List.mem_cons_self
      | cons outer path =>
          cases frame with
          | onLeft color own right =>
              have inside := induction rep.2.2 (List.cons_ne_nil _ _)
              exact List.mem_cons_of_mem _
                (List.mem_append.mpr (Or.inr inside))
          | onRight color left own =>
              have inside := induction rep.2.2 (List.cons_ne_nil _ _)
              exact List.mem_cons_of_mem _
                (List.mem_append.mpr (Or.inr inside))

/-! ## Moving the focus -/

section Moving

variable {T : KvsRbtree} {path : List (Frame Nat)} {tree : ColorTree Nat}

theorem focus_cons_iff {frame : Frame Nat} :
    Focus T (frame :: path) tree ↔ Focus T path (frame.fill tree) := by
  have labels := (perm_fill frame path tree).nodup_iff
  cases frame with
  | onLeft color address right =>
      constructor
      · rintro ⟨⟨node, sibling, above⟩, inside, nodup, sentinel⟩
        exact ⟨above, ⟨node, inside, sibling⟩, labels.mpr nodup, sentinel⟩
      · rintro ⟨above, ⟨node, inside, sibling⟩, nodup, sentinel⟩
        exact ⟨⟨node, sibling, above⟩, inside, labels.mp nodup, sentinel⟩
  | onRight color left address =>
      constructor
      · rintro ⟨⟨node, sibling, above⟩, inside, nodup, sentinel⟩
        exact ⟨above, ⟨node, sibling, inside⟩, labels.mpr nodup, sentinel⟩
      · rintro ⟨above, ⟨node, sibling, inside⟩, nodup, sentinel⟩
        exact ⟨⟨node, sibling, above⟩, inside, labels.mp nodup, sentinel⟩

theorem Focus.up {frame : Frame Nat} (focus : Focus T (frame :: path) tree) :
    Focus T path (frame.fill tree) :=
  focus_cons_iff.mp focus

theorem Focus.downLeft {color : Color} {left right : ColorTree Nat}
    {address : Nat} (focus : Focus T path (.node color left address right)) :
    Focus T (.onLeft color address right :: path) left :=
  focus_cons_iff.mpr focus

theorem Focus.downRight {color : Color} {left right : ColorTree Nat}
    {address : Nat} (focus : Focus T path (.node color left address right)) :
    Focus T (.onRight color left address :: path) right :=
  focus_cons_iff.mpr focus

/-- A tree in the hole of a path is the same as the whole tree. -/
theorem focus_iff_plug {inner outer : List (Frame Nat)} :
    Focus T (inner ++ outer) tree ↔ Focus T outer (plug inner tree) := by
  induction inner generalizing tree with
  | nil => exact Iff.rfl
  | cons frame inner induction =>
      rw [List.cons_append, focus_cons_iff, induction, plug]

theorem Focus.whole (focus : Focus T path tree) :
    Focus T [] (plug path tree) := by
  rw [← focus_iff_plug, List.append_nil]
  exact focus

theorem Focus.at (whole : Focus T [] (plug path tree)) :
    Focus T path tree := by
  rw [← focus_iff_plug, List.append_nil] at whole
  exact whole

theorem Focus.notMem_around (focus : Focus T path tree) {address : Nat}
    (member : address ∈ tree.inorder) :
    address ∉ labelsAround path := by
  intro outside
  exact (List.nodup_append.mp focus.nodup).2.2 _ member _ outside rfl

theorem Focus.nil_notMem (focus : Focus T path tree) :
    nil ∉ tree.inorder :=
  fun member => focus.inside.real member rfl

theorem Focus.nil_notMem_around (focus : Focus T path tree) :
    nil ∉ labelsAround path :=
  fun member => focus.around.real member rfl

end Moving

/-! ## Reading the heap -/

section Reading

variable {T : KvsRbtree} {path : List (Frame Nat)} {color : Color}
    {left right : ColorTree Nat} {address : Nat}

theorem Focus.node (focus : Focus T path (.node color left address right)) :
    NodeIs T.nodes address color (pathParent path) (rootOf left)
      (rootOf right) :=
  focus.inside.1

/-- The colour at the root of a red-black tree, the sentinel included. -/
theorem Focus.rootColor {tree : ColorTree Nat} {height : Nat}
    (focus : Focus T path tree) (balanced : RedBlack color height tree) :
    (T.nodes (rootOf tree)).color = color := by
  cases balanced with
  | leaf => exact focus.sentinel.color
  | red onLeft onRight => exact focus.node.color
  | black onLeft onRight => exact focus.node.color

/-- Sibling subtrees have different roots unless both are leaves. -/
theorem Focus.roots_ne (focus : Focus T path (.node color left address right))
    (real : rootOf left ≠ nil) :
    rootOf left ≠ rootOf right := by
  have nodup := (List.nodup_append.mp focus.nodup).1
  rw [ColorTree.inorder, List.nodup_append] at nodup
  have member : rootOf left ∈ left.inorder := by
    cases left with
    | leaf => exact absurd rfl real
    | node color left address right => simp [rootOf, ColorTree.inorder]
  cases right with
  | leaf => exact real
  | node color right' other right'' =>
      exact nodup.2.2 _ member _ (by simp [rootOf, ColorTree.inorder])

end Reading

/-! ## Turning the pointer above a hole -/

/-- Let the pointer above the hole refer to another address. -/
def setHole (T : KvsRbtree) (path : List (Frame Nat)) (target : Nat) :
    KvsRbtree :=
  match path with
  | [] => T.setRoot target
  | .onLeft _ address _ :: _ => T.setLeft address target
  | .onRight _ _ address :: _ => T.setRight address target

theorem setHole_nodes {T : KvsRbtree} {path : List (Frame Nat)}
    {target address : Nat} (outside : address ∉ labelsAround path) :
    (setHole T path target).nodes address = T.nodes address := by
  cases path with
  | nil => rfl
  | cons frame path =>
      cases frame with
      | onLeft color own right =>
          have different : address ≠ own := by
            rintro rfl
            exact outside (by simp [labelsAround])
          simp [setHole, different]
      | onRight color left own =>
          have different : address ≠ own := by
            rintro rfl
            exact outside (by simp [labelsAround])
          simp [setHole, different]

theorem sameEntries_setHole (T : KvsRbtree) (path : List (Frame Nat))
    (target : Nat) :
    SameEntries T (setHole T path target) := by
  cases path with
  | nil => exact ⟨rfl, fun _ => rfl⟩
  | cons frame path =>
      cases frame with
      | onLeft color own right => exact sameEntries_setLeft T own target
      | onRight color left own => exact sameEntries_setRight T own target

theorem RepPath.setHole {T : KvsRbtree} {path : List (Frame Nat)}
    {hole : Nat} (rep : RepPath T hole path)
    (nodup : (labelsAround path).Nodup) (target : Nat) :
    RepPath (setHole T path target) target path := by
  cases path with
  | nil => rfl
  | cons frame path =>
      cases frame with
      | onLeft color own right =>
          obtain ⟨node, sibling, above⟩ := rep
          have fresh := (List.nodup_cons.mp nodup).1
          have same : ∀ address ∈ right.inorder ++ labelsAround path,
              (T.setLeft own target).nodes address = T.nodes address := by
            intro address member
            rw [setLeft_nodes, if_neg]
            rintro rfl
            exact fresh member
          refine ⟨⟨node.real, ?_, ?_, ?_, ?_⟩, sibling.congr ?_,
            above.congr rfl ?_⟩
          · simp [RbtreeShape.setHole, node.color]
          · simp [RbtreeShape.setHole, node.parent]
          · simp [RbtreeShape.setHole]
          · simp [RbtreeShape.setHole, node.right]
          · intro address member
            exact same address (List.mem_append.mpr (Or.inl member))
          · intro address member
            exact same address (List.mem_append.mpr (Or.inr member))
      | onRight color left own =>
          obtain ⟨node, sibling, above⟩ := rep
          have fresh := (List.nodup_cons.mp nodup).1
          have same : ∀ address ∈ left.inorder ++ labelsAround path,
              (T.setRight own target).nodes address = T.nodes address := by
            intro address member
            rw [setRight_nodes, if_neg]
            rintro rfl
            exact fresh member
          refine ⟨⟨node.real, ?_, ?_, ?_, ?_⟩, sibling.congr ?_,
            above.congr rfl ?_⟩
          · simp [RbtreeShape.setHole, node.color]
          · simp [RbtreeShape.setHole, node.parent]
          · simp [RbtreeShape.setHole, node.left]
          · simp [RbtreeShape.setHole]
          · intro address member
            exact same address (List.mem_append.mpr (Or.inl member))
          · intro address member
            exact same address (List.mem_append.mpr (Or.inr member))

/-- A tree that does not hold an address does not have it at its root. -/
theorem rootOf_ne {tree : ColorTree Nat} {address : Nat}
    (real : address ≠ nil) (outside : address ∉ tree.inorder) :
    address ≠ rootOf tree := by
  cases tree with
  | leaf => exact real
  | node color left own right =>
      rintro rfl
      exact outside (by simp [ColorTree.inorder])

/-- The relinking steps turn the pointer above the hole. -/
theorem relinkAbove_eq {T : KvsRbtree} {path : List (Frame Nat)}
    {old : Nat} (rep : RepPath T old path)
    (parent : (T.nodes old).parent = pathParent path)
    (real : old ≠ nil) (outside : old ∉ labelsAround path) (new : Nat) :
    T.relinkAbove old new = setHole T path new := by
  cases path with
  | nil =>
      rw [KvsRbtree.relinkAbove, parent]
      exact if_pos rfl
  | cons frame path =>
      cases frame with
      | onLeft color own right =>
          obtain ⟨node, _, _⟩ := rep
          have above : (T.nodes old).parent = own := parent
          rw [KvsRbtree.relinkAbove, above, if_neg node.real,
            if_pos node.left.symm]
          rfl
      | onRight color left own =>
          obtain ⟨node, _, _⟩ := rep
          have above : (T.nodes old).parent = own := parent
          have other : old ≠ rootOf left := by
            apply rootOf_ne real
            intro member
            exact outside (by simp [labelsAround, member])
          rw [KvsRbtree.relinkAbove, above, if_neg node.real, node.left,
            if_neg other]
          rfl

/-! ## Colouring -/

theorem Focus.setColor {T : KvsRbtree} {path : List (Frame Nat)}
    {color : Color} {left right : ColorTree Nat} {address : Nat}
    (focus : Focus T path (.node color left address right))
    (new : Color) :
    Focus (T.setColor address new) path (.node new left address right) := by
  obtain ⟨node, onLeft, onRight⟩ := focus.inside
  have outside : address ∉ labelsAround path :=
    focus.notMem_around (by simp [ColorTree.inorder])
  have inner := (List.nodup_append.mp focus.nodup).1
  rw [ColorTree.inorder, List.nodup_append, List.nodup_cons] at inner
  have same : ∀ other, other ≠ address →
      (T.setColor address new).nodes other = T.nodes other := by
    intro other different
    rw [setColor_nodes, if_neg different]
  refine ⟨focus.around.congr rfl ?_, ⟨⟨node.real, ?_, ?_, ?_, ?_⟩,
    onLeft.congr ?_, onRight.congr ?_⟩, focus.nodup, ?_, ?_, ?_⟩
  · intro other member
    apply same
    rintro rfl
    exact outside member
  · simp
  · simp [node.parent]
  · simp [node.left]
  · simp [node.right]
  · intro other member
    apply same
    rintro rfl
    exact inner.2.2 _ member _ List.mem_cons_self rfl
  · intro other member
    apply same
    rintro rfl
    exact inner.2.1.1 member
  · rw [same nil node.real.symm, focus.sentinel.color]
  · rw [same nil node.real.symm, focus.sentinel.left]
  · rw [same nil node.real.symm, focus.sentinel.right]

/-! ## Rotation -/

/-- A tree below another parent. -/
theorem Rep.reparent {nodes nodes' : Nat → RbNode} {parent parent' : Nat}
    {tree : ColorTree Nat} (rep : Rep nodes parent tree)
    (nodup : tree.inorder.Nodup)
    (moved : rootOf tree ≠ nil →
      nodes' (rootOf tree) =
        { nodes (rootOf tree) with parent := parent' })
    (same : ∀ address ∈ tree.inorder, address ≠ rootOf tree →
      nodes' address = nodes address) :
    Rep nodes' parent' tree := by
  cases tree with
  | leaf => trivial
  | node color left address right =>
      obtain ⟨node, onLeft, onRight⟩ := rep
      have top : nodes' address = { nodes address with parent := parent' } :=
        moved node.real
      rw [ColorTree.inorder, List.nodup_append, List.nodup_cons] at nodup
      refine ⟨⟨node.real, ?_, ?_, ?_, ?_⟩, onLeft.congr ?_,
        onRight.congr ?_⟩
      · rw [top, node.color]
      · rw [top]
      · rw [top, node.left]
      · rw [top, node.right]
      · intro other member
        apply same other (by simp [ColorTree.inorder, member])
        rintro rfl
        exact nodup.2.2 _ member _ List.mem_cons_self rfl
      · intro other member
        apply same other (by simp [ColorTree.inorder, member])
        rintro rfl
        exact nodup.2.1.1 member

/-- The middle subtree of a rotation gets its new parent. -/
def adopt (T : KvsRbtree) (child parent : Nat) : KvsRbtree :=
  if child ≠ nil then T.setParent child parent else T

theorem adopt_nodes (T : KvsRbtree) (child parent address : Nat) :
    (adopt T child parent).nodes address =
      if address = child ∧ child ≠ nil then
        { T.nodes address with parent := parent }
      else T.nodes address := by
  rw [adopt]
  split_ifs with real here here
  · rw [setParent_nodes, if_pos here.1]
  · rw [setParent_nodes, if_neg (fun same => here ⟨same, real⟩)]
  · exact absurd here.2 real
  · rfl

theorem adopt_root (T : KvsRbtree) (child parent : Nat) :
    (adopt T child parent).root = T.root := by
  rw [adopt]
  split_ifs <;> rfl

theorem sameEntries_adopt (T : KvsRbtree) (child parent : Nat) :
    SameEntries T (adopt T child parent) := by
  rw [adopt]
  split_ifs
  · exact sameEntries_setParent T child parent
  · exact SameEntries.refl T

/-- The heap in front of the relinking step of a left rotation. -/
def rotateBelow (T : KvsRbtree) (x y middle parent : Nat) : KvsRbtree :=
  (adopt (T.setRight x middle) middle x).setParent y parent

section Rotate

variable {T : KvsRbtree} {path : List (Frame Nat)} {color color' : Color}
    {a b d : ColorTree Nat} {x y : Nat}

/-- The addresses of a rotation are distinct. -/
theorem Focus.rotate_apart
    (focus : Focus T path (.node color a x (.node color' b y d))) :
    x ≠ y ∧ rootOf b ≠ x ∧ rootOf b ≠ y ∧
      (∀ address ∈ a.inorder ++ (d.inorder ++ labelsAround path),
        address ≠ x ∧ address ≠ y ∧
          ¬ (address = rootOf b ∧ rootOf b ≠ nil)) ∧
      (∀ address ∈ b.inorder, address ≠ x ∧ address ≠ y) ∧
      (∀ address ∈ a.inorder ++ (b.inorder ++ d.inorder),
        address ∉ labelsAround path) ∧
      x ∉ labelsAround path ∧ y ∉ labelsAround path := by
  obtain ⟨nodeX, _, nodeY, repB, _⟩ := focus.inside
  have nodup := focus.nodup
  simp only [ColorTree.inorder, List.append_assoc, List.cons_append,
    List.nodup_append, List.nodup_cons, List.mem_append, List.mem_cons,
    not_or] at nodup
  have rootB : rootOf b ≠ nil → rootOf b ∈ b.inorder := by
    intro real
    cases b with
    | leaf => exact absurd rfl real
    | node color left address right => simp [rootOf, ColorTree.inorder]
  have rootX : rootOf b ≠ x := by
    intro same
    have member := rootB (by rw [same]; exact nodeX.real)
    grind
  have rootY : rootOf b ≠ y := by
    intro same
    have member := rootB (by rw [same]; exact nodeY.real)
    grind
  refine ⟨by grind, rootX, rootY, ?_, ?_, ?_, by grind, by grind⟩
  · intro address member
    rw [List.mem_append, List.mem_append] at member
    refine ⟨by grind, by grind, ?_⟩
    rintro ⟨rfl, real⟩
    have inside := rootB real
    grind
  · intro address member
    exact ⟨by grind, by grind⟩
  · intro address member
    rw [List.mem_append, List.mem_append] at member
    grind

theorem rotateBelow_nodes {middle parent address : Nat} :
    (rotateBelow T x y middle parent).nodes address =
      let linked :=
        if address = middle ∧ middle ≠ nil then
          { (T.setRight x middle).nodes address with parent := x }
        else (T.setRight x middle).nodes address
      if address = y then { linked with parent := parent } else linked := by
  rw [rotateBelow, setParent_nodes, adopt_nodes]

/-- A left rotation, with the relinking step resolved. -/
theorem Focus.leftRotate_eq
    (focus : Focus T path (.node color a x (.node color' b y d))) :
    rbtreeLeftRotate T x =
      ((setHole (rotateBelow T x y (rootOf b) (pathParent path)) path
        y).setLeft y x).setParent x y := by
  obtain ⟨nodeX, _, nodeY, _, _⟩ := focus.inside
  obtain ⟨apart, rootX, rootY, other, _, _, outsideX, _⟩ :=
    focus.rotate_apart
  have right : (T.nodes x).right = y := nodeX.right
  have left : (T.nodes y).left = rootOf b := nodeY.left
  have below : (T.setRight x (rootOf b)).nodes y = T.nodes y := by
    simp [apart.symm]
  have parent : ((adopt (T.setRight x (rootOf b)) (rootOf b) x).nodes
      x).parent = pathParent path := by
    rw [adopt_nodes, if_neg (fun same => rootX same.1.symm)]
    simp [nodeX.parent]
  have rep : RepPath (rotateBelow T x y (rootOf b) (pathParent path)) x
      path := by
    refine focus.around.congr (adopt_root _ _ _) ?_
    intro address member
    obtain ⟨notX, notY, notB⟩ := other address (by simp [member])
    simp [rotateBelow_nodes, notX, notY, notB]
  have above : ((rotateBelow T x y (rootOf b) (pathParent path)).nodes
      x).parent = pathParent path := by
    simp [rotateBelow_nodes, apart, rootX.symm, nodeX.parent]
  rw [rbtreeLeftRotate, right, left, below, left, ← adopt, parent,
    ← rotateBelow, relinkAbove_eq rep above nodeX.real outsideX]

/-- A rotation leaves the entries and the sentinel alone. -/
theorem Focus.leftRotate_same
    (focus : Focus T path (.node color a x (.node color' b y d))) :
    SameEntries T (rbtreeLeftRotate T x) ∧
      (rbtreeLeftRotate T x).nodes nil = T.nodes nil := by
  obtain ⟨nodeX, _, nodeY, _, _⟩ := focus.inside
  rw [focus.leftRotate_eq]
  constructor
  · refine SameEntries.trans ?_ (sameEntries_setParent _ _ _)
    refine SameEntries.trans ?_ (sameEntries_setLeft _ _ _)
    refine SameEntries.trans ?_ (sameEntries_setHole _ _ _)
    refine SameEntries.trans ?_ (sameEntries_setParent _ _ _)
    refine SameEntries.trans ?_ (sameEntries_adopt _ _ _)
    exact sameEntries_setRight _ _ _
  · have leafB : ¬ (nil = rootOf b ∧ rootOf b ≠ nil) := by
      rintro ⟨same, real⟩
      exact real same.symm
    rw [setParent_nodes, if_neg nodeX.real.symm, setLeft_nodes,
      if_neg nodeY.real.symm, setHole_nodes focus.nil_notMem_around,
      rotateBelow_nodes]
    simp [nodeX.real.symm, nodeY.real.symm, leafB]

/-- A left rotation turns the tree at its node and nothing else. -/
theorem Focus.leftRotate
    (focus : Focus T path (.node color a x (.node color' b y d))) :
    Focus (rbtreeLeftRotate T x) path
      (.node color' (.node color a x b) y d) := by
  obtain ⟨nodeX, repA, nodeY, repB, repD⟩ := focus.inside
  obtain ⟨apart, rootX, rootY, other, inB, inside, outsideX, outsideY⟩ :=
    focus.rotate_apart
  have value : ∀ address, address ∉ labelsAround path →
      (rbtreeLeftRotate T x).nodes address =
        if address = x then
          { T.nodes x with right := rootOf b, parent := y }
        else if address = y then
          { T.nodes y with left := x, parent := pathParent path }
        else if address = rootOf b ∧ rootOf b ≠ nil then
          { T.nodes address with parent := x }
        else T.nodes address := by
    intro address outside
    rw [focus.leftRotate_eq, setParent_nodes, setLeft_nodes,
      setHole_nodes outside, rotateBelow_nodes]
    by_cases atX : address = x
    · subst atX
      simp [apart, rootX.symm]
    · by_cases atY : address = y
      · subst atY
        simp [atX, rootY.symm]
      · simp [atX, atY]
  have same : ∀ address,
      address ∈ a.inorder ++ (d.inorder ++ labelsAround path) →
      address ∉ labelsAround path →
        (rbtreeLeftRotate T x).nodes address = T.nodes address := by
    intro address member outside
    obtain ⟨notX, notY, notB⟩ := other address member
    rw [value address outside, if_neg notX, if_neg notY, if_neg notB]
  have nodupB : b.inorder.Nodup := by
    have nodup := (List.nodup_append.mp focus.nodup).1
    simp only [ColorTree.inorder, List.nodup_append, List.nodup_cons] at nodup
    exact nodup.2.1.2.1
  have sentinel := focus.leftRotate_same.2
  refine ⟨?_, ⟨⟨nodeY.real, ?_, ?_, ?_, ?_⟩, ⟨⟨nodeX.real, ?_, ?_, ?_, ?_⟩,
    repA.congr ?_, repB.reparent nodupB ?_ ?_⟩, repD.congr ?_⟩, ?_,
    ⟨by rw [sentinel, focus.sentinel.color],
      by rw [sentinel, focus.sentinel.left],
      by rw [sentinel, focus.sentinel.right]⟩⟩
  · have rep : RepPath (rotateBelow T x y (rootOf b) (pathParent path)) x
        path := by
      refine focus.around.congr (adopt_root _ _ _) ?_
      intro address member
      obtain ⟨notX, notY, notB⟩ := other address (by simp [member])
      simp [rotateBelow_nodes, notX, notY, notB]
    have turned := rep.setHole (List.nodup_append.mp focus.nodup).2.1 y
    rw [focus.leftRotate_eq]
    refine turned.congr rfl ?_
    intro address member
    obtain ⟨notX, notY, _⟩ := other address (by simp [member])
    rw [setParent_nodes, if_neg notX, setLeft_nodes, if_neg notY]
  · rw [value y outsideY]
    simp [apart.symm, nodeY.color]
  · rw [value y outsideY]
    simp [apart.symm]
  · rw [value y outsideY]
    simp [apart.symm, rootOf]
  · rw [value y outsideY]
    simp [apart.symm, nodeY.right]
  · rw [value x outsideX]
    simp [nodeX.color]
  · rw [value x outsideX]
    simp
  · rw [value x outsideX]
    simp [nodeX.left]
  · rw [value x outsideX]
    simp
  · intro address member
    exact same address (by simp [member]) (inside address (by simp [member]))
  · intro real
    have outside : rootOf b ∉ labelsAround path := by
      apply inside
      cases b with
      | leaf => exact absurd rfl real
      | node color left address right => simp [rootOf, ColorTree.inorder]
    rw [value _ outside, if_neg rootX, if_neg rootY, if_pos ⟨rfl, real⟩]
  · intro address member different
    obtain ⟨notX, notY⟩ := inB address member
    rw [value address (inside address (by simp [member])), if_neg notX,
      if_neg notY, if_neg (fun both => different both.1)]
  · intro address member
    exact same address (by simp [member]) (inside address (by simp [member]))
  · have nodup := focus.nodup
    simpa [ColorTree.inorder] using nodup

end Rotate

/-! ## The mirror -/

/-- The heap with left and right exchanged. -/
def mirrorHeap (T : KvsRbtree) : KvsRbtree :=
  { T with
    nodes := fun address =>
      { T.nodes address with
        left := (T.nodes address).right
        right := (T.nodes address).left } }

section Mirror

variable (T : KvsRbtree) (address : Nat)

@[simp]
theorem mirrorHeap_mirrorHeap : mirrorHeap (mirrorHeap T) = T :=
  rfl

@[simp]
theorem mirrorHeap_left :
    ((mirrorHeap T).nodes address).left = (T.nodes address).right :=
  rfl

@[simp]
theorem mirrorHeap_right :
    ((mirrorHeap T).nodes address).right = (T.nodes address).left :=
  rfl

@[simp]
theorem mirrorHeap_parent :
    ((mirrorHeap T).nodes address).parent = (T.nodes address).parent :=
  rfl

@[simp]
theorem mirrorHeap_color :
    ((mirrorHeap T).nodes address).color = (T.nodes address).color :=
  rfl

@[simp]
theorem mirrorHeap_root : (mirrorHeap T).root = T.root :=
  rfl

theorem mirrorHeap_update {change change' : RbNode → RbNode}
    (mirrored : ∀ node : RbNode,
      { change node with
        left := (change node).right
        right := (change node).left } =
      change' { node with left := node.right, right := node.left }) :
    mirrorHeap (T.update address change) =
      (mirrorHeap T).update address change' := by
  rw [mirrorHeap, KvsRbtree.update, KvsRbtree.update, mirrorHeap]
  congr 1
  funext other
  dsimp only
  split_ifs
  · exact mirrored _
  · rfl

@[simp]
theorem mirrorHeap_setColor (color : Color) :
    mirrorHeap (T.setColor address color) =
      (mirrorHeap T).setColor address color :=
  mirrorHeap_update T address (fun _ => rfl)

@[simp]
theorem mirrorHeap_setLeft (child : Nat) :
    mirrorHeap (T.setLeft address child) =
      (mirrorHeap T).setRight address child :=
  mirrorHeap_update T address (fun _ => rfl)

@[simp]
theorem mirrorHeap_setRight (child : Nat) :
    mirrorHeap (T.setRight address child) =
      (mirrorHeap T).setLeft address child :=
  mirrorHeap_update T address (fun _ => rfl)

@[simp]
theorem mirrorHeap_setParent (parent : Nat) :
    mirrorHeap (T.setParent address parent) =
      (mirrorHeap T).setParent address parent :=
  mirrorHeap_update T address (fun _ => rfl)

theorem mirrorHeap_relinkAbove (new : Nat) :
    mirrorHeap (T.relinkAbove address new) =
      (mirrorHeap T).relinkAboveRight address new := by
  by_cases top : (T.nodes address).parent = nil
  · rw [KvsRbtree.relinkAbove, if_pos top, KvsRbtree.relinkAboveRight,
      mirrorHeap_parent, if_pos top]
    rfl
  · by_cases onLeft : address = (T.nodes (T.nodes address).parent).left
    · rw [KvsRbtree.relinkAbove, if_neg top, if_pos onLeft,
        KvsRbtree.relinkAboveRight, mirrorHeap_parent, if_neg top,
        mirrorHeap_right, if_pos onLeft, mirrorHeap_setLeft]
    · rw [KvsRbtree.relinkAbove, if_neg top, if_neg onLeft,
        KvsRbtree.relinkAboveRight, mirrorHeap_parent, if_neg top,
        mirrorHeap_right, if_neg onLeft, mirrorHeap_setRight]

theorem mirrorHeap_adopt (parent : Nat) :
    mirrorHeap (adopt T address parent) =
      adopt (mirrorHeap T) address parent := by
  rw [adopt, adopt]
  split_ifs
  · exact mirrorHeap_setParent T address parent
  · rfl

theorem leftRotate_adopt (x : Nat) :
    rbtreeLeftRotate T x =
      (let y := (T.nodes x).right
       let linked := T.setRight x (T.nodes y).left
       let adopted := adopt linked (linked.nodes y).left x
       let lifted := adopted.setParent y (adopted.nodes x).parent
       ((lifted.relinkAbove x y).setLeft y x).setParent x y) :=
  rfl

theorem rightRotate_adopt (y : Nat) :
    rbtreeRightRotate T y =
      (let x := (T.nodes y).left
       let linked := T.setLeft y (T.nodes x).right
       let adopted := adopt linked (linked.nodes x).right y
       let lifted := adopted.setParent x (adopted.nodes y).parent
       ((lifted.relinkAboveRight y x).setRight x y).setParent y x) :=
  rfl

/-- The right rotation is the left rotation in the mirror. -/
theorem mirrorHeap_leftRotate (x : Nat) :
    mirrorHeap (rbtreeLeftRotate T x) =
      rbtreeRightRotate (mirrorHeap T) x := by
  rw [leftRotate_adopt, rightRotate_adopt]
  simp only [mirrorHeap_left, mirrorHeap_right, ← mirrorHeap_setRight,
    ← mirrorHeap_adopt, mirrorHeap_parent, ← mirrorHeap_setParent,
    ← mirrorHeap_relinkAbove, ← mirrorHeap_setLeft]

end Mirror

section MirrorFocus

variable {T : KvsRbtree}

theorem rootOf_mirror (tree : ColorTree Nat) :
    rootOf tree.mirror = rootOf tree := by
  cases tree <;> rfl

theorem pathParent_mirror (path : List (Frame Nat)) :
    pathParent (path.map Frame.mirror) = pathParent path := by
  cases path with
  | nil => rfl
  | cons frame path => cases frame <;> rfl

theorem NodeIs.mirror {address : Nat} {color : Color}
    {parent left right : Nat}
    (node : NodeIs T.nodes address color parent left right) :
    NodeIs (mirrorHeap T).nodes address color parent right left :=
  ⟨node.real, node.color, node.parent, node.right, node.left⟩

theorem Rep.mirror {parent : Nat} {tree : ColorTree Nat}
    (rep : Rep T.nodes parent tree) :
    Rep (mirrorHeap T).nodes parent tree.mirror := by
  induction tree generalizing parent with
  | leaf => trivial
  | node color left address right inductionLeft inductionRight =>
      obtain ⟨node, onLeft, onRight⟩ := rep
      refine ⟨?_, inductionRight onRight, inductionLeft onLeft⟩
      rw [rootOf_mirror, rootOf_mirror]
      exact node.mirror

theorem RepPath.mirror {hole : Nat} {path : List (Frame Nat)}
    (rep : RepPath T hole path) :
    RepPath (mirrorHeap T) hole (path.map Frame.mirror) := by
  induction path generalizing hole with
  | nil => exact rep
  | cons frame path induction =>
      cases frame with
      | onLeft color address right =>
          obtain ⟨node, sibling, above⟩ := rep
          refine ⟨?_, sibling.mirror, induction above⟩
          rw [rootOf_mirror, pathParent_mirror]
          exact node.mirror
      | onRight color left address =>
          obtain ⟨node, sibling, above⟩ := rep
          refine ⟨?_, sibling.mirror, induction above⟩
          rw [rootOf_mirror, pathParent_mirror]
          exact node.mirror

theorem perm_mirror (tree : ColorTree Nat) :
    tree.mirror.inorder.Perm tree.inorder := by
  rw [inorder_mirror]
  exact List.reverse_perm _

theorem perm_labelsAround_mirror (path : List (Frame Nat)) :
    (labelsAround (path.map Frame.mirror)).Perm (labelsAround path) := by
  induction path with
  | nil => exact List.Perm.refl _
  | cons frame path induction =>
      cases frame with
      | onLeft color address right =>
          exact ((perm_mirror right).append induction).cons address
      | onRight color left address =>
          exact ((perm_mirror left).append induction).cons address

theorem Focus.mirror {path : List (Frame Nat)} {tree : ColorTree Nat}
    (focus : Focus T path tree) :
    Focus (mirrorHeap T) (path.map Frame.mirror) tree.mirror := by
  refine ⟨?_, ?_, ?_, ?_⟩
  · rw [rootOf_mirror]
    exact focus.around.mirror
  · rw [pathParent_mirror]
    exact focus.inside.mirror
  · exact ((perm_mirror tree).append
      (perm_labelsAround_mirror path)).nodup_iff.mpr focus.nodup
  · exact ⟨focus.sentinel.color, focus.sentinel.right, focus.sentinel.left⟩

theorem SameEntries.mirror {after : KvsRbtree}
    (same : SameEntries T after) :
    SameEntries (mirrorHeap T) (mirrorHeap after) :=
  ⟨same.next, same.entry⟩

end MirrorFocus

section RightRotate

variable {T : KvsRbtree} {path : List (Frame Nat)} {color color' : Color}
    {a b d : ColorTree Nat} {x y : Nat}

/-- A right rotation turns the tree at its node and nothing else. -/
theorem Focus.rightRotate
    (focus : Focus T path (.node color (.node color' a x b) y d)) :
    Focus (rbtreeRightRotate T y) path
      (.node color' a x (.node color b y d)) := by
  have turned := focus.mirror.leftRotate.mirror
  rw [mirrorHeap_leftRotate, mirrorHeap_mirrorHeap, List.map_map,
    frame_mirror_comp_mirror, List.map_id] at turned
  simpa [ColorTree.mirror] using turned

theorem Focus.rightRotate_same
    (focus : Focus T path (.node color (.node color' a x b) y d)) :
    SameEntries T (rbtreeRightRotate T y) ∧
      (rbtreeRightRotate T y).nodes nil = T.nodes nil := by
  obtain ⟨same, sentinel⟩ := focus.mirror.leftRotate_same
  have heap : rbtreeRightRotate T y =
      mirrorHeap (rbtreeLeftRotate (mirrorHeap T) y) := by
    rw [mirrorHeap_leftRotate, mirrorHeap_mirrorHeap]
  rw [heap]
  exact ⟨same.mirror, congrArg (fun node : RbNode =>
    { node with left := node.right, right := node.left }) sentinel⟩

end RightRotate

end Kivo.Engine.RbtreeShape
