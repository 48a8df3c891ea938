import Kivo.Engine.RbtreeShape

/-!
# Rebalancing

The loops of `rbtree_insert_fixup` and `rbtree_delete_fixup`.  One iteration
of the insertion loop turns a red node below a red parent into a red node two
levels higher, or ends the violation; one iteration of the deletion loop moves
a missing black one level up, or supplies it.  The branches for the other side
are the same steps in the mirror.
-/

namespace Kivo.Engine.RbtreeFixup

open Kivo.Clib.RedBlackTree
open Kivo.Engine.RbtreeEngine
open Kivo.Engine.RbtreeShape

/-- The heap was reshaped into a tree with the given labels that is red-black
once its root is painted black. -/
def Rebalanced (before after : KvsRbtree) (labels : List Nat) : Prop :=
  ∃ tree, Focus after [] tree ∧ SameEntries before after ∧
    tree.inorder = labels ∧
    ∃ total, RedBlack .black total (tree.paint .black)

/-! ## One step of the insertion loop -/

/--
What one step makes of the subtree at the grandparent: the violation moves to
its root, or it is gone.
-/
def InsertStep (T : KvsRbtree) (path : List (Frame Nat))
    (tree : ColorTree Nat) (height : Nat) (result : KvsRbtree × Nat) : Prop :=
  SameEntries T result.1 ∧
    ∃ tree', Focus result.1 path tree' ∧ tree'.inorder = tree.inorder ∧
      ((∃ left right, tree' = .node .red left result.2 right ∧
          RedBlack .black (height + 1) left ∧
          RedBlack .black (height + 1) right) ∨
        (RedBlack .black (height + 1) tree' ∧
          (result.1.nodes (result.1.nodes result.2).parent).color = .black))

section InsertLeft

variable {T : KvsRbtree} {path : List (Frame Nat)}
    {left right sibling uncle : ColorTree Nat} {z p g height : Nat}
    {uncleColor : Color}

theorem insertTurnLeft_step
    (focus : Focus T (.onLeft .red p sibling :: .onLeft .black g uncle :: path)
      (.node .red left z right))
    (onLeft : RedBlack .black height left)
    (onRight : RedBlack .black height right)
    (beside : RedBlack .black height sibling)
    (opposite : RedBlack .black height uncle) :
    InsertStep T path
      (.node .black (.node .red (.node .red left z right) p sibling) g uncle)
      height (insertTurnLeft T z) := by
  have parent : (T.nodes z).parent = p := focus.node.parent
  have painted := focus.up.setColor .black
  have parent' : ((T.setColor p .black).nodes z).parent = p :=
    painted.downLeft.node.parent
  have grand : ((T.setColor p .black).nodes p).parent = g :=
    painted.node.parent
  have red := painted.up.setColor .red
  have parent'' : (((T.setColor p .black).setColor g .red).nodes z).parent =
      p := red.downLeft.downLeft.node.parent
  have grand' : (((T.setColor p .black).setColor g .red).nodes p).parent =
      g := red.downLeft.node.parent
  have turned := red.rightRotate
  have result : insertTurnLeft T z =
      (rbtreeRightRotate ((T.setColor p .black).setColor g .red) g, z) := by
    rw [insertTurnLeft, parent, parent', grand, parent'', grand']
  rw [result]
  refine ⟨?_, _, turned, ?_, Or.inr ⟨?_, ?_⟩⟩
  · exact (sameEntries_setColor T p .black).trans
      ((sameEntries_setColor _ g .red).trans red.rightRotate_same.1)
  · simp [ColorTree.inorder]
  · exact .black (.red onLeft onRight) (.red beside opposite)
  · rw [turned.downLeft.node.parent]
    exact turned.node.color

/-- With a black uncle a right child is turned into a left child first. -/
theorem insertTurns_step {frame : Frame Nat}
    (focus : Focus T (frame :: .onLeft .black g uncle :: path)
      (.node .red left z right))
    (shape : frame = .onLeft .red p sibling ∨ frame = .onRight .red sibling p)
    (onLeft : RedBlack .black height left)
    (onRight : RedBlack .black height right)
    (beside : RedBlack .black height sibling)
    (opposite : RedBlack .black height uncle) :
    InsertStep T path
      (.node .black (frame.fill (.node .red left z right)) g uncle) height
      (if z = (T.nodes p).right then insertTurnLeft (rbtreeLeftRotate T p) p
        else insertTurnLeft T z) := by
  rcases shape with rfl | rfl
  · have other : (T.nodes p).right = rootOf sibling := focus.up.node.right
    have apart : z ≠ rootOf sibling := focus.up.roots_ne focus.node.real
    rw [other, if_neg apart]
    exact insertTurnLeft_step focus onLeft onRight beside opposite
  · have own : (T.nodes p).right = z := focus.up.node.right
    have turned := focus.up.leftRotate
    have same := focus.up.leftRotate_same.1
    rw [own, if_pos rfl]
    obtain ⟨kept, tree', result, labels, ends⟩ := insertTurnLeft_step
      turned.downLeft beside onLeft onRight opposite
    refine ⟨same.trans kept, tree', result, ?_, ends⟩
    rw [labels]
    simp [ColorTree.inorder, Frame.fill]

theorem insertFixupLeft_step {frame : Frame Nat}
    (focus : Focus T (frame :: .onLeft .black g uncle :: path)
      (.node .red left z right))
    (shape : frame = .onLeft .red p sibling ∨ frame = .onRight .red sibling p)
    (onLeft : RedBlack .black height left)
    (onRight : RedBlack .black height right)
    (beside : RedBlack .black height sibling)
    (opposite : RedBlack uncleColor height uncle) :
    InsertStep T path
      (.node .black (frame.fill (.node .red left z right)) g uncle)
      height (insertFixupLeft T z) := by
  have label : frame.label = p := by
    rcases shape with rfl | rfl <;> rfl
  obtain ⟨left', right', filled, balancedLeft, balancedRight⟩ :
      ∃ left' right', frame.fill (.node .red left z right) =
        .node .red left' p right' ∧
        (∃ color, RedBlack color height left') ∧
        (∃ color, RedBlack color height right') := by
    rcases shape with rfl | rfl
    · exact ⟨_, _, rfl, ⟨_, .red onLeft onRight⟩, ⟨_, beside⟩⟩
    · exact ⟨_, _, rfl, ⟨_, beside⟩, ⟨_, .red onLeft onRight⟩⟩
  have atParent := focus.up
  rw [filled] at atParent
  have parent : (T.nodes z).parent = p := focus.node.parent.trans label
  have grand : (T.nodes p).parent = g := atParent.node.parent
  have other : (T.nodes g).right = rootOf uncle := atParent.up.node.right
  rw [insertFixupLeft, parent, grand, other, atParent.up.downRight.rootColor opposite]
  cases opposite with
  | leaf =>
      rw [if_neg (by decide)]
      exact insertTurns_step focus shape onLeft onRight beside .leaf
  | red upLeft upRight =>
      rw [if_pos rfl]
      obtain ⟨_, balancedLeft⟩ := balancedLeft
      obtain ⟨_, balancedRight⟩ := balancedRight
      have first := atParent.setColor .black
      have second := first.up.downRight.setColor .black
      have third := second.up.setColor .red
      refine ⟨?_, _, third, ?_, Or.inl ⟨_, _, rfl, ?_, ?_⟩⟩
      · exact (sameEntries_setColor _ _ _).trans
          ((sameEntries_setColor _ _ _).trans (sameEntries_setColor _ _ _))
      · rw [filled]
        rfl
      · exact .black balancedLeft balancedRight
      · exact .black upLeft upRight
  | black upLeft upRight =>
      rw [if_neg (by decide)]
      exact insertTurns_step focus shape onLeft onRight beside
        (.black upLeft upRight)

end InsertLeft

/-! ## The mirrored step -/

theorem mirrorHeap_rightRotate (T : KvsRbtree) (x : Nat) :
    mirrorHeap (rbtreeRightRotate T x) = rbtreeLeftRotate (mirrorHeap T) x := by
  have heap := mirrorHeap_leftRotate (mirrorHeap T) x
  rw [mirrorHeap_mirrorHeap] at heap
  rw [← heap, mirrorHeap_mirrorHeap]

theorem insertTurnRight_mirror (T : KvsRbtree) (z : Nat) :
    insertTurnRight (mirrorHeap T) z =
      (mirrorHeap (insertTurnLeft T z).1, (insertTurnLeft T z).2) := by
  simp only [insertTurnRight, insertTurnLeft, mirrorHeap_rightRotate,
    mirrorHeap_parent, ← mirrorHeap_setColor]

/-- The right branch of the insertion loop is the left branch in the
mirror. -/
theorem insertFixupRight_mirror (T : KvsRbtree) (z : Nat) :
    insertFixupRight (mirrorHeap T) z =
      (mirrorHeap (insertFixupLeft T z).1, (insertFixupLeft T z).2) := by
  rw [insertFixupRight, insertFixupLeft]
  simp only [mirrorHeap_parent, mirrorHeap_left, mirrorHeap_color,
    ← mirrorHeap_leftRotate, insertTurnRight_mirror, ← mirrorHeap_setColor]
  by_cases uncle : (T.nodes (T.nodes
      (T.nodes (T.nodes z).parent).parent).right).color = .red
  · rw [if_pos uncle, if_pos uncle]
  · rw [if_neg uncle, if_neg uncle]
    by_cases turn : z = (T.nodes (T.nodes z).parent).right
    · rw [if_pos turn, if_pos turn]
    · rw [if_neg turn, if_neg turn]

theorem InsertStep.mirror {T : KvsRbtree} {path : List (Frame Nat)}
    {tree : ColorTree Nat} {height : Nat} {result : KvsRbtree × Nat}
    (step : InsertStep (mirrorHeap T) (path.map Frame.mirror) tree.mirror
      height result) :
    InsertStep T path tree height (mirrorHeap result.1, result.2) := by
  obtain ⟨same, tree', focus, labels, ends⟩ := step
  have back := focus.mirror
  rw [List.map_map, frame_mirror_comp_mirror, List.map_id] at back
  refine ⟨same.mirror, tree'.mirror, back, ?_, ?_⟩
  · rw [inorder_mirror, labels, inorder_mirror, List.reverse_reverse]
  · rcases ends with ⟨left, right, rfl, onLeft, onRight⟩ | ⟨balanced, black⟩
    · exact Or.inl ⟨_, _, rfl, onRight.mirror, onLeft.mirror⟩
    · exact Or.inr ⟨balanced.mirror, black⟩

/-! ## The insertion loop -/

section InsertLoop

variable {T : KvsRbtree} {path : List (Frame Nat)} {z height : Nat}
    {left right : ColorTree Nat}

/-- The branch the loop takes for a red parent. -/
def insertBranch (T : KvsRbtree) (z : Nat) : KvsRbtree × Nat :=
  let p := (T.nodes z).parent
  if p = (T.nodes (T.nodes p).parent).left then insertFixupLeft T z
  else insertFixupRight T z

/-- Below a red parent there is a black grandparent, and one step repairs the
subtree at the grandparent up to its root. -/
theorem insertBranch_step {frame : Frame Nat} {rest : List (Frame Nat)}
    {p : Nat} {sibling : ColorTree Nat}
    (focus : Focus T (frame :: rest) (.node .red left z right))
    (shape : frame = .onLeft .red p sibling ∨ frame = .onRight .red sibling p)
    (onLeft : RedBlack .black height left)
    (onRight : RedBlack .black height right)
    (beside : RedBlack .black height sibling)
    (above : Fits rest .red height) :
    ∃ grand path', rest = grand :: path' ∧
      Fits path' .black (height + 1) ∧
      InsertStep T path'
        (grand.fill (frame.fill (.node .red left z right))) height
        (insertBranch T z) := by
  have label : frame.label = p := by
    rcases shape with rfl | rfl <;> rfl
  obtain ⟨left', right', filled⟩ : ∃ left' right',
      frame.fill (.node .red left z right) = .node .red left' p right' := by
    rcases shape with rfl | rfl
    · exact ⟨_, _, rfl⟩
    · exact ⟨_, _, rfl⟩
  have atParent := focus.up
  rw [filled] at atParent
  have parent : (T.nodes z).parent = p := focus.node.parent.trans label
  have grandparent : (T.nodes p).parent = pathParent rest :=
    atParent.node.parent
  cases above with
  | @blackLeft _ _ _ g uncle path' opposite higher =>
      have side : (T.nodes g).left = p := atParent.up.node.left
      refine ⟨_, _, rfl, higher, ?_⟩
      rw [insertBranch, parent, grandparent,
        if_pos (by rw [pathParent, Frame.label, side])]
      exact insertFixupLeft_step focus shape onLeft onRight beside opposite
  | @blackRight _ _ _ g uncle path' opposite higher =>
      have side : (T.nodes g).left = rootOf uncle := atParent.up.node.left
      have apart : p ≠ rootOf uncle := by
        have different := atParent.up.mirror.roots_ne (by
          rw [rootOf_mirror]
          exact atParent.node.real)
        rw [rootOf_mirror, rootOf_mirror] at different
        exact different
      have mirrored : frame.mirror = .onLeft .red p sibling.mirror ∨
          frame.mirror = .onRight .red sibling.mirror p := by
        rcases shape with rfl | rfl
        · exact Or.inr rfl
        · exact Or.inl rfl
      have step := insertFixupLeft_step focus.mirror mirrored onRight.mirror
        onLeft.mirror beside.mirror opposite.mirror
      have branch : insertBranch T z =
          (mirrorHeap (insertFixupLeft (mirrorHeap T) z).1,
            (insertFixupLeft (mirrorHeap T) z).2) := by
        rw [insertBranch, parent, grandparent,
          if_neg (by rw [pathParent, Frame.label, side]; exact apart),
          ← insertFixupRight_mirror, mirrorHeap_mirrorHeap]
      refine ⟨_, _, rfl, higher, ?_⟩
      rw [branch]
      apply InsertStep.mirror
      have shapes : (Frame.fill (.onRight .black uncle g)
          (frame.fill (.node .red left z right))).mirror =
          .node .black (frame.mirror.fill
            (.node .red right.mirror z left.mirror)) g uncle.mirror := by
        rcases shape with rfl | rfl <;> rfl
      rw [shapes]
      exact step

/-- A loop at a node below a black parent does nothing. -/
theorem insertFixupLoop_black
    (black : (T.nodes (T.nodes z).parent).color = .black) (fuel : Nat) :
    insertFixupLoop fuel T z = T := by
  cases fuel with
  | zero => rfl
  | succ fuel =>
      rw [insertFixupLoop, black]
      exact if_neg (by decide)

/-- Where the parent is red the loop goes on behind the branch. -/
theorem insertFixupLoop_red
    (red : (T.nodes (T.nodes z).parent).color = .red) (fuel : Nat) :
    insertFixupLoop (fuel + 1) T z =
      insertFixupLoop fuel (insertBranch T z).1 (insertBranch T z).2 := by
  rw [insertFixupLoop]
  exact if_pos red

/-- Below a black parent the tree is in order already. -/
theorem rebalanced_of_black {fuel : Nat}
    (focus : Focus T path (.node .red left z right))
    (onLeft : RedBlack .black height left)
    (onRight : RedBlack .black height right)
    (fits : Fits path .red height)
    (black : (T.nodes (T.nodes z).parent).color = .black) :
    Rebalanced T (insertFixupLoop fuel T z)
      (plug path (.node .red left z right)).inorder := by
  rw [insertFixupLoop_black black]
  refine ⟨_, focus.whole, SameEntries.refl T, rfl, ?_⟩
  obtain ⟨total, balanced⟩ := fits.plug (.red onLeft onRight)
  exact balanced.paint_black

/-- The insertion loop keeps the labels in order and leaves a tree that is
red-black once its root is painted black. -/
theorem insertFixupLoop_rebalanced {fuel : Nat}
    (focus : Focus T path (.node .red left z right))
    (onLeft : RedBlack .black height left)
    (onRight : RedBlack .black height right)
    (fits : Fits path .black height) (enough : path.length < fuel) :
    Rebalanced T (insertFixupLoop fuel T z)
      (plug path (.node .red left z right)).inorder := by
  induction fuel generalizing T path z left right height with
  | zero => omega
  | succ fuel induction =>
      have climb : ∀ frame rest p sibling, path = frame :: rest →
          (frame = .onLeft .red p sibling ∨
            frame = .onRight .red sibling p) →
          RedBlack .black height sibling → Fits rest .red height →
          Rebalanced T (insertFixupLoop (fuel + 1) T z)
            (plug path (.node .red left z right)).inorder := by
        rintro frame rest p sibling rfl shape beside above
        obtain ⟨grand, path', rfl, higher, same, tree', step, labels, ends⟩ :=
          insertBranch_step focus shape onLeft onRight beside above
        have red : (T.nodes (T.nodes z).parent).color = .red := by
          rw [focus.node.parent]
          rcases shape with rfl | rfl
          · exact focus.up.node.color
          · exact focus.up.node.color
        have order : (plug path' tree').inorder =
            (plug (frame :: grand :: path')
              (.node .red left z right)).inorder :=
          inorder_plug_congr labels
        rw [insertFixupLoop_red red, ← order]
        rcases ends with ⟨left', right', rfl, onLeft', onRight'⟩ |
          ⟨balanced, black⟩
        · obtain ⟨tree, result, kept, sorted, painted⟩ :=
            induction step onLeft' onRight' higher (by
              simp only [List.length_cons] at enough
              omega)
          exact ⟨tree, result, same.trans kept, sorted, painted⟩
        · rw [insertFixupLoop_black black]
          obtain ⟨total, whole⟩ := higher.plug balanced
          exact ⟨_, step.whole, same, rfl, whole.paint_black⟩
      cases fits with
      | top =>
          have black : (T.nodes (T.nodes z).parent).color = .black := by
            rw [focus.node.parent]
            exact focus.sentinel.color
          rw [insertFixupLoop_black black]
          exact ⟨_, focus.whole, SameEntries.refl T, rfl, _,
            .black onLeft onRight⟩
      | redLeft beside above =>
          exact climb _ _ _ _ rfl (Or.inl rfl) beside above
      | redRight beside above =>
          exact climb _ _ _ _ rfl (Or.inr rfl) beside above
      | blackLeft beside above =>
          refine rebalanced_of_black focus onLeft onRight
            (.blackLeft beside above) ?_
          rw [focus.node.parent]
          exact focus.up.node.color
      | blackRight beside above =>
          refine rebalanced_of_black focus onLeft onRight
            (.blackRight beside above) ?_
          rw [focus.node.parent]
          exact focus.up.node.color

end InsertLoop

/-! ## One step of the deletion loop -/

/--
The state of the deletion loop at a tree in the hole of a path: a black tree
that is one black too short for the hole, or a red one that fits once it is
painted black.
-/
structure Pending (T : KvsRbtree) (path : List (Frame Nat))
    (tree : ColorTree Nat) : Prop where
  focus : Focus T path tree
  parent : (T.nodes (rootOf tree)).parent = pathParent path
  short :
    (∃ height, RedBlack .black height tree ∧
      Fits path .black (height + 1)) ∨
    (∃ left address right height, tree = .node .red left address right ∧
      RedBlack .black height (.node .black left address right) ∧
      Fits path .black height)

/-- What one step makes of the loop: it is done and stands at the root, it
stands at a red node, or it has climbed one level. -/
def DeleteStep (T : KvsRbtree) (levels : Nat) (labels : List Nat)
    (result : KvsRbtree × Nat) : Prop :=
  SameEntries T result.1 ∧
    ∃ path tree, (plug path tree).inorder = labels ∧
      ((Focus result.1 path tree ∧ result.2 = result.1.root ∧
          ∃ total, RedBlack .black total (plug path tree)) ∨
        (Pending result.1 path tree ∧ rootOf tree = result.2 ∧
          ((∃ left address right, tree = .node .red left address right) ∨
            path.length < levels)))

section DeleteLeft

variable {T : KvsRbtree} {rest : List (Frame Nat)}
    {tree left right : ColorTree Nat} {p w height : Nat} {color : Color}

theorem parent_setColor (address : Nat) (new : Color) (other : Nat) :
    ((T.setColor address new).nodes other).parent =
      (T.nodes other).parent := by
  rw [setColor_nodes]
  split_ifs <;> rfl

/-- The parent of a focused tree after a change that spares the sentinel. -/
theorem parent_of_sentinel {T' : KvsRbtree} {path : List (Frame Nat)}
    (focus : Focus T' path tree)
    (sentinel : T'.nodes nil = T.nodes nil)
    (parent : (T.nodes (rootOf tree)).parent = pathParent path) :
    (T'.nodes (rootOf tree)).parent = pathParent path := by
  cases tree with
  | leaf =>
      rw [← parent]
      exact congrArg RbNode.parent sentinel
  | node color left address right => exact focus.node.parent

/-- The rotation that supplies the missing black. -/
theorem deleteFinishLeft_step {far farther : ColorTree Nat} {v : Nat}
    (focus : Focus T (.onLeft color p
      (.node .black left w (.node .red far v farther)) :: rest) tree)
    (parent : (T.nodes (rootOf tree)).parent = p)
    (short : RedBlack .black height tree)
    {nearColor : Color} (near : RedBlack nearColor height left)
    (apart : RedBlack .red height (.node .red far v farther))
    {sibling : ColorTree Nat}
    (fits : Fits (.onLeft color p sibling :: rest) .black (height + 1))
    (levels : Nat) :
    DeleteStep T levels
      (plug (.onLeft color p
        (.node .black left w (.node .red far v farther)) :: rest)
        tree).inorder
      (deleteFinishLeft T (rootOf tree) w) := by
  have first := focus.up.downRight.setColor color
  have second := first.up.setColor .black
  have third := second.downRight.downRight.setColor .black
  have turned := third.up.up.leftRotate
  have own : (T.nodes p).color = color := focus.up.node.color
  have child : ((((T.setColor w color).setColor p .black)).nodes w).right =
      v := second.downRight.node.right
  have result : deleteFinishLeft T (rootOf tree) w =
      (rbtreeLeftRotate (((T.setColor w color).setColor p .black).setColor v
        .black) p,
        (rbtreeLeftRotate (((T.setColor w color).setColor p .black).setColor
          v .black) p).root) := by
    rw [deleteFinishLeft]
    simp only [parent_setColor, parent]
    rw [own, child]
  rw [result]
  refine ⟨?_, rest, _, ?_, Or.inl ⟨turned, rfl, ?_⟩⟩
  · exact (sameEntries_setColor _ _ _).trans
      ((sameEntries_setColor _ _ _).trans
        ((sameEntries_setColor _ _ _).trans third.up.up.leftRotate_same.1))
  · exact inorder_plug_congr (by simp [ColorTree.inorder, Frame.fill])
  · cases apart with
    | red inner outer =>
        exact fits.rebuild (.black short near) (.black inner outer)

/-- A black sibling with its children. -/
theorem deleteBesideLeft_step
    (focus : Focus T (.onLeft color p (.node .black left w right) :: rest)
      tree)
    (parent : (T.nodes (rootOf tree)).parent = p)
    (short : RedBlack .black height tree)
    {nearColor farColor : Color} (near : RedBlack nearColor height left)
    (apart : RedBlack farColor height right)
    (fits : Fits (.onLeft color p (.node .black left w right) :: rest) .black
      (height + 1))
    {levels : Nat} (climbs : color = .black → rest.length < levels) :
    DeleteStep T levels
      (plug (.onLeft color p (.node .black left w right) :: rest)
        tree).inorder
      (deleteBesideLeft T (rootOf tree) w) := by
  have sibling := focus.up.downRight
  have nearRoot : (T.nodes (T.nodes w).left).color = nearColor := by
    rw [sibling.node.left]
    exact sibling.downLeft.rootColor near
  have farRoot : (T.nodes (T.nodes w).right).color = farColor := by
    rw [sibling.node.right]
    exact sibling.downRight.rootColor apart
  rw [deleteBesideLeft, nearRoot, farRoot, parent]
  cases farColor with
  | red =>
      rw [if_neg (by simp), if_neg (by decide)]
      cases apart with
      | red inner outer =>
          exact deleteFinishLeft_step focus parent short near
            (.red inner outer) fits _
  | black =>
      cases nearColor with
      | black =>
          rw [if_pos ⟨rfl, rfl⟩]
          have painted := (sibling.setColor .red).up
          refine ⟨sameEntries_setColor T w .red, rest, _, ?_,
            Or.inr ⟨⟨painted, painted.node.parent, ?_⟩, rfl, ?_⟩⟩
          · exact inorder_plug_congr (by simp [ColorTree.inorder, Frame.fill])
          · cases fits with
            | redLeft beside above =>
                exact Or.inr ⟨_, _, _, _, rfl,
                  .black short (.red near apart), above.toBlack⟩
            | blackLeft beside above =>
                exact Or.inl ⟨_, .black short (.red near apart), above⟩
          · cases color with
            | red => exact Or.inl ⟨_, _, _, rfl⟩
            | black => exact Or.inr (climbs rfl)
      | red =>
          rw [if_neg (by simp), if_pos rfl]
          cases near with
          | @red _ inner outer v onInner onOuter =>
              have first := sibling.downLeft.setColor .black
              have second := first.up.setColor .red
              have turned := second.rightRotate
              have child : (T.nodes w).left = v := sibling.node.left
              have below := turned.up.downLeft
              have real : w ≠ nil := sibling.node.real
              have real' : v ≠ nil := sibling.downLeft.node.real
              have sentinel : (rbtreeRightRotate
                  ((T.setColor v .black).setColor w .red) w).nodes nil =
                  T.nodes nil := by
                rw [second.rightRotate_same.2]
                simp [real.symm, real'.symm]
              have parent' := parent_of_sentinel below sentinel parent
              have right' : ((rbtreeRightRotate
                  ((T.setColor v .black).setColor w .red) w).nodes p).right =
                  v := turned.up.node.right
              dsimp only
              rw [child, parent']
              simp only [pathParent, Frame.label]
              rw [right']
              obtain ⟨same, path, tree', order, ends⟩ :=
                deleteFinishLeft_step below parent' short onInner
                  (.red onOuter apart) fits levels
              refine ⟨?_, path, tree', ?_, ends⟩
              · exact (sameEntries_setColor _ _ _).trans
                  ((sameEntries_setColor _ _ _).trans
                    (second.rightRotate_same.1.trans same))
              · rw [order]
                apply @inorder_plug_congr _ rest
                simp [ColorTree.inorder, Frame.fill]

/-- One step of the left branch of the deletion loop. -/
theorem deleteFixupLeft_step {beside : ColorTree Nat}
    (focus : Focus T (.onLeft color p beside :: rest) tree)
    (parent : (T.nodes (rootOf tree)).parent = p)
    (short : RedBlack .black height tree)
    (fits : Fits (.onLeft color p beside :: rest) .black (height + 1)) :
    DeleteStep T (rest.length + 1)
      (plug (.onLeft color p beside :: rest) tree).inorder
      (deleteFixupLeft T (rootOf tree)) := by
  have right : (T.nodes p).right = rootOf beside := focus.up.node.right
  obtain ⟨siblingColor, sibling⟩ : ∃ siblingColor,
      RedBlack siblingColor (height + 1) beside := by
    cases fits with
    | redLeft sibling above => exact ⟨_, sibling⟩
    | blackLeft sibling above => exact ⟨_, sibling⟩
  rw [deleteFixupLeft, parent, right,
    focus.up.downRight.rootColor sibling]
  cases sibling with
  | @black _ left right w _ _ near apart =>
      rw [if_neg (by decide)]
      exact deleteBesideLeft_step focus parent short near apart fits
        (fun _ => Nat.lt_succ_self _)
  | @red _ left right w onLeft onRight =>
      rw [if_pos rfl]
      obtain ⟨rfl, above⟩ : color = .black ∧
          Fits rest .black (height + 1 + 1) := by
        cases fits with
        | redLeft sibling above => cases sibling
        | blackLeft sibling above => exact ⟨rfl, above⟩
      have first := focus.up.downRight.setColor .black
      have second := first.up.setColor .red
      have turned := second.leftRotate
      have real : p ≠ nil := focus.up.node.real
      have real' : w ≠ nil := focus.up.downRight.node.real
      have sentinel : (rbtreeLeftRotate
          ((T.setColor w .black).setColor p .red) p).nodes nil =
          T.nodes nil := by
        rw [second.leftRotate_same.2]
        simp [real.symm, real'.symm]
      have below := turned.downLeft.downLeft
      have parent' := parent_of_sentinel below sentinel parent
      have right' : ((rbtreeLeftRotate
          ((T.setColor w .black).setColor p .red) p).nodes p).right =
          rootOf left := turned.downLeft.node.right
      dsimp only
      rw [rootOf_node, parent_setColor, parent, parent_setColor,
        parent_setColor, parent, parent']
      simp only [pathParent, Frame.label]
      rw [right']
      cases onLeft with
      | @black _ left' right'' w' _ _ near apart =>
          obtain ⟨same, path, tree', order, ends⟩ :=
            deleteBesideLeft_step below parent' short near apart
              (.redLeft (.black near apart)
                (.blackLeft onRight above))
              (fun impossible => Color.noConfusion impossible)
          refine ⟨?_, path, tree', ?_, ends⟩
          · exact (sameEntries_setColor _ _ _).trans
              ((sameEntries_setColor _ _ _).trans
                (second.leftRotate_same.1.trans same))
          · rw [order]
            apply @inorder_plug_congr _ rest
            simp [ColorTree.inorder, Frame.fill]

end DeleteLeft

/-! ## The mirrored step -/

theorem deleteFinishRight_mirror (T : KvsRbtree) (x w : Nat) :
    deleteFinishRight (mirrorHeap T) x w =
      (mirrorHeap (deleteFinishLeft T x w).1, (deleteFinishLeft T x w).2) := by
  simp only [deleteFinishRight, deleteFinishLeft, mirrorHeap_parent,
    mirrorHeap_color, mirrorHeap_left, mirrorHeap_root,
    ← mirrorHeap_setColor, ← mirrorHeap_leftRotate]

theorem deleteBesideRight_mirror (T : KvsRbtree) (x w : Nat) :
    deleteBesideRight (mirrorHeap T) x w =
      (mirrorHeap (deleteBesideLeft T x w).1, (deleteBesideLeft T x w).2) := by
  rw [deleteBesideRight, deleteBesideLeft]
  simp only [mirrorHeap_parent, mirrorHeap_color, mirrorHeap_left,
    mirrorHeap_right, ← mirrorHeap_setColor, ← mirrorHeap_rightRotate,
    deleteFinishRight_mirror]
  by_cases both : (T.nodes (T.nodes w).left).color = .black ∧
      (T.nodes (T.nodes w).right).color = .black
  · rw [if_pos both.symm, if_pos both]
  · have both' : ¬ ((T.nodes (T.nodes w).right).color = .black ∧
        (T.nodes (T.nodes w).left).color = .black) :=
      fun swapped => both swapped.symm
    rw [if_neg both', if_neg both]
    by_cases apart : (T.nodes (T.nodes w).right).color = .black
    · rw [if_pos apart, if_pos apart]
    · rw [if_neg apart, if_neg apart]

/-- The right branch of the deletion loop is the left branch in the
mirror. -/
theorem deleteFixupRight_mirror (T : KvsRbtree) (x : Nat) :
    deleteFixupRight (mirrorHeap T) x =
      (mirrorHeap (deleteFixupLeft T x).1, (deleteFixupLeft T x).2) := by
  rw [deleteFixupRight, deleteFixupLeft]
  simp only [mirrorHeap_parent, mirrorHeap_color, mirrorHeap_left,
    ← mirrorHeap_setColor, ← mirrorHeap_leftRotate, deleteBesideRight_mirror]
  by_cases red : (T.nodes (T.nodes (T.nodes x).parent).right).color = .red
  · rw [if_pos red, if_pos red]
  · rw [if_neg red, if_neg red]

theorem Pending.mirror {T : KvsRbtree} {path : List (Frame Nat)}
    {tree : ColorTree Nat} (pending : Pending T path tree) :
    Pending (mirrorHeap T) (path.map Frame.mirror) tree.mirror := by
  refine ⟨pending.focus.mirror, ?_, ?_⟩
  · rw [rootOf_mirror, pathParent_mirror]
    exact pending.parent
  · rcases pending.short with ⟨height, balanced, fits⟩ |
      ⟨left, address, right, height, rfl, balanced, fits⟩
    · exact Or.inl ⟨height, balanced.mirror, fits.mirror⟩
    · exact Or.inr ⟨_, _, _, height, rfl, balanced.mirror, fits.mirror⟩

theorem DeleteStep.mirror {T : KvsRbtree} {levels : Nat} {labels : List Nat}
    {result : KvsRbtree × Nat}
    (step : DeleteStep T levels labels result) :
    DeleteStep (mirrorHeap T) levels labels.reverse
      (mirrorHeap result.1, result.2) := by
  obtain ⟨same, path, tree, order, ends⟩ := step
  refine ⟨same.mirror, path.map Frame.mirror, tree.mirror, ?_, ?_⟩
  · rw [plug_mirror, inorder_mirror, order]
  · rcases ends with ⟨focus, top, total, balanced⟩ | ⟨pending, here, lower⟩
    · refine Or.inl ⟨focus.mirror, top, total, ?_⟩
      rw [plug_mirror]
      exact balanced.mirror
    · refine Or.inr ⟨pending.mirror, ?_, ?_⟩
      · rw [rootOf_mirror]
        exact here
      · rcases lower with ⟨left, address, right, rfl⟩ | lower
        · exact Or.inl ⟨_, _, _, rfl⟩
        · exact Or.inr (by rw [List.length_map]; exact lower)

/-! ## The deletion loop -/

section DeleteLoop

variable {T : KvsRbtree} {path : List (Frame Nat)} {tree : ColorTree Nat}

/-- The branch the loop takes. -/
def deleteBranch (T : KvsRbtree) (x : Nat) : KvsRbtree × Nat :=
  if x = (T.nodes (T.nodes x).parent).left then deleteFixupLeft T x
  else deleteFixupRight T x

theorem deleteBranch_step {frame : Frame Nat} {rest : List (Frame Nat)}
    {height : Nat} (focus : Focus T (frame :: rest) tree)
    (parent : (T.nodes (rootOf tree)).parent = frame.label)
    (short : RedBlack .black height tree)
    (fits : Fits (frame :: rest) .black (height + 1)) :
    DeleteStep T (rest.length + 1) (plug (frame :: rest) tree).inorder
      (deleteBranch T (rootOf tree)) := by
  cases frame with
  | onLeft color p beside =>
      have side : (T.nodes p).left = rootOf tree := focus.up.node.left
      rw [deleteBranch, parent,
        if_pos (by rw [Frame.label, side])]
      exact deleteFixupLeft_step focus parent short fits
  | onRight color beside p =>
      have side : (T.nodes p).left = rootOf beside := focus.up.node.left
      have real : rootOf beside ≠ nil := by
        have filled : ∃ siblingColor,
            RedBlack siblingColor (height + 1) beside := by
          cases fits with
          | redRight sibling above => exact ⟨_, sibling⟩
          | blackRight sibling above => exact ⟨_, sibling⟩
        obtain ⟨siblingColor, sibling⟩ := filled
        cases sibling with
        | red onLeft onRight => exact focus.up.downLeft.node.real
        | black onLeft onRight => exact focus.up.downLeft.node.real
      have apart := (focus.up.roots_ne real).symm
      rw [deleteBranch, parent,
        if_neg (by rw [Frame.label, side]; exact apart)]
      have step := (deleteFixupLeft_step focus.mirror (by
        rw [rootOf_mirror]
        exact parent) short.mirror fits.mirror).mirror
      rw [← deleteFixupRight_mirror, mirrorHeap_mirrorHeap, rootOf_mirror,
        List.length_map] at step
      have order : (plug (.onRight color beside p :: rest) tree).inorder =
          (plug (.onLeft color p beside.mirror :: rest.map Frame.mirror)
            tree.mirror).inorder.reverse := by
        have mirrored : plug (.onLeft color p beside.mirror ::
            rest.map Frame.mirror) tree.mirror =
            (plug (.onRight color beside p :: rest) tree).mirror :=
          plug_mirror (.onRight color beside p :: rest) tree
        rw [mirrored, inorder_mirror, List.reverse_reverse]
      rw [order]
      exact step

/-- The loop stops at the root and at a red node. -/
theorem deleteFixupLoop_stop {x : Nat}
    (stop : x = T.root ∨ (T.nodes x).color = .red) (fuel : Nat) :
    deleteFixupLoop fuel T x = (T, x) := by
  cases fuel with
  | zero => rfl
  | succ fuel =>
      rw [deleteFixupLoop, if_neg]
      rintro ⟨inner, black⟩
      rcases stop with top | red
      · exact inner top
      · rw [red] at black
        exact Color.noConfusion black

theorem deleteFixupLoop_go {x : Nat} (inner : x ≠ T.root)
    (black : (T.nodes x).color = .black) (fuel : Nat) :
    deleteFixupLoop (fuel + 1) T x =
      deleteFixupLoop fuel (deleteBranch T x).1 (deleteBranch T x).2 := by
  rw [deleteFixupLoop]
  exact if_pos ⟨inner, black⟩

/-- Where the loop ends: a tree with its path that is red-black once the tree
is painted black. -/
def DeleteEnd (T : KvsRbtree) (labels : List Nat)
    (result : KvsRbtree × Nat) : Prop :=
  SameEntries T result.1 ∧
    ∃ path tree, Focus result.1 path tree ∧ rootOf tree = result.2 ∧
      (plug path tree).inorder = labels ∧
      ∃ total, RedBlack .black total (plug path (tree.paint .black))

/-- A red node takes the missing black itself. -/
theorem deleteEnd_of_red {left right : ColorTree Nat} {address : Nat}
    {fuel : Nat} (pending : Pending T path (.node .red left address right)) :
    DeleteEnd T (plug path (.node .red left address right)).inorder
      (deleteFixupLoop fuel T address) := by
  rw [deleteFixupLoop_stop (Or.inr pending.focus.node.color)]
  refine ⟨SameEntries.refl T, path, _, pending.focus, rfl, rfl, ?_⟩
  rcases pending.short with ⟨height, balanced, fits⟩ |
    ⟨left', address', right', height, same, balanced, fits⟩
  · cases balanced
  · cases same
    exact fits.plug balanced

/-- The root of a tree in a hole is not the root of the whole tree. -/
theorem rootOf_ne_root {frame : Frame Nat} {rest : List (Frame Nat)}
    (focus : Focus T (frame :: rest) tree) :
    rootOf tree ≠ T.root := by
  have top := focus.around.root_mem (List.cons_ne_nil frame rest)
  cases tree with
  | leaf => exact (focus.around.real top).symm
  | node color left address right =>
      rintro rfl
      exact focus.notMem_around (by simp [ColorTree.inorder]) top

/-- The deletion loop ends with the labels in order and the missing black
supplied. -/
theorem deleteFixupLoop_end {fuel : Nat} (pending : Pending T path tree)
    (enough : path.length < fuel) :
    DeleteEnd T (plug path tree).inorder
      (deleteFixupLoop fuel T (rootOf tree)) := by
  induction fuel generalizing T path tree with
  | zero => omega
  | succ fuel induction =>
      rcases pending.short with ⟨height, balanced, fits⟩ |
        ⟨left, address, right, height, rfl, balanced, fits⟩
      · cases path with
        | nil =>
            have top : rootOf tree = T.root := pending.focus.around.symm
            rw [deleteFixupLoop_stop (Or.inl top)]
            refine ⟨SameEntries.refl T, [], tree, pending.focus, rfl, rfl, ?_⟩
            exact balanced.paint_black
        | cons frame rest =>
            rw [deleteFixupLoop_go (rootOf_ne_root pending.focus)
              (pending.focus.rootColor balanced)]
            obtain ⟨same, path', tree', order, ends⟩ := deleteBranch_step
              pending.focus pending.parent balanced fits
            rw [← order]
            rcases ends with ⟨focus', top, total, whole⟩ |
              ⟨pending', here, lower⟩
            · rw [deleteFixupLoop_stop (Or.inl top), top]
              refine ⟨same, [], plug path' tree', focus'.whole,
                focus'.whole.around.symm, rfl, ?_⟩
              exact whole.paint_black
            · rw [← here]
              suffices DeleteEnd (deleteBranch T (rootOf tree)).1
                  (plug path' tree').inorder
                  (deleteFixupLoop fuel (deleteBranch T (rootOf tree)).1
                    (rootOf tree')) from
                ⟨same.trans this.1, this.2⟩
              rcases lower with ⟨left, address, right, rfl⟩ | lower
              · exact deleteEnd_of_red pending'
              · exact induction pending' (by
                  simp only [List.length_cons] at enough
                  omega)
      · exact deleteEnd_of_red pending

end DeleteLoop

/-! ## The two repairs -/

section Repairs

variable {T : KvsRbtree} {path : List (Frame Nat)} {tree : ColorTree Nat}

/-- Painting the root of a focused tree black; the sentinel is black
already. -/
theorem paintBlack_focus (focus : Focus T path tree) :
    Focus (T.setColor (rootOf tree) .black) path (tree.paint .black) := by
  cases tree with
  | node color left address right => exact focus.setColor .black
  | leaf =>
      have same : ∀ address, (T.setColor nil .black).nodes address =
          T.nodes address := by
        intro address
        rw [setColor_nodes]
        split_ifs with here
        · rw [here]
          have black := focus.sentinel.color
          cases node : T.nodes nil
          rw [node] at black
          simp only at black
          rw [black]
        · rfl
      refine ⟨focus.around.congr rfl (fun address _ => same address),
        trivial, focus.nodup, ?_, ?_, ?_⟩
      · rw [rootOf, same nil, focus.sentinel.color]
      · rw [rootOf, same nil, focus.sentinel.left]
      · rw [rootOf, same nil, focus.sentinel.right]

/-- `rbtree_insert_fixup` repairs the tree around a new red node. -/
theorem rbtreeInsertFixup_focus {left right : ColorTree Nat}
    {z height : Nat} (focus : Focus T path (.node .red left z right))
    (onLeft : RedBlack .black height left)
    (onRight : RedBlack .black height right)
    (fits : Fits path .black height) (enough : path.length < T.next) :
    ∃ tree', Focus (rbtreeInsertFixup T z) [] tree' ∧
      SameEntries T (rbtreeInsertFixup T z) ∧
      tree'.inorder = (plug path (.node .red left z right)).inorder ∧
      ∃ total, RedBlack .black total tree' := by
  obtain ⟨tree', focus', same, order, balanced⟩ :=
    insertFixupLoop_rebalanced focus onLeft onRight fits enough
  have top : (insertFixupLoop T.next T z).root = rootOf tree' :=
    focus'.around
  rw [rbtreeInsertFixup, top]
  exact ⟨_, paintBlack_focus focus', same.trans (sameEntries_setColor _ _ _),
    (inorder_paint _ _).trans order, balanced⟩

/-- `rbtree_delete_fixup` supplies the missing black. -/
theorem rbtreeDeleteFixup_focus (pending : Pending T path tree)
    (enough : path.length ≤ T.next) :
    ∃ tree', Focus (rbtreeDeleteFixup T (rootOf tree)) [] tree' ∧
      SameEntries T (rbtreeDeleteFixup T (rootOf tree)) ∧
      tree'.inorder = (plug path tree).inorder ∧
      ∃ total, RedBlack .black total tree' := by
  obtain ⟨same, path', tree', focus', here, order, balanced⟩ :=
    deleteFixupLoop_end pending (Nat.lt_succ_of_le enough)
  rw [rbtreeDeleteFixup, ← here]
  refine ⟨_, (paintBlack_focus focus').whole,
    same.trans (sameEntries_setColor _ _ _), ?_, balanced⟩
  rw [← order]
  exact inorder_plug_congr (inorder_paint _ _)

end Repairs

end Kivo.Engine.RbtreeFixup
