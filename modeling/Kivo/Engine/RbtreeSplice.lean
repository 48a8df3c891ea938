import Kivo.Engine.RbtreeFixup

/-!
# Insertion and deletion in the red-black engine

A new node is hung into an empty hole and a node is taken out of the tree; both
leave a tree that the repair loops accept.  A node with two children is
replaced by the leftmost node of its right subtree.  That node is lifted out
first and then takes the place, the left subtree and the colour of the deleted
one, and the hole it leaves is where a black may be missing.
-/

namespace Kivo.Engine.RbtreeSplice

open Kivo.Clib.RedBlackTree
open Kivo.Engine.Data
open Kivo.Engine.RbtreeEngine
open Kivo.Engine.RbtreeShape
open Kivo.Engine.RbtreeFixup

/-! ## Small facts -/

theorem SentinelOk.congr {T T' : KvsRbtree} (sentinel : SentinelOk T)
    (same : T'.nodes nil = T.nodes nil) :
    SentinelOk T' :=
  ⟨by rw [same, sentinel.color], by rw [same, sentinel.left],
    by rw [same, sentinel.right]⟩

theorem SentinelOk.setParent {T : KvsRbtree} (sentinel : SentinelOk T)
    (address parent : Nat) :
    SentinelOk (T.setParent address parent) := by
  refine ⟨?_, ?_, ?_⟩
  · rw [setParent_nodes, ← sentinel.color]
    split_ifs <;> rfl
  · rw [setParent_nodes]
    split_ifs <;> exact sentinel.left
  · rw [setParent_nodes]
    split_ifs <;> exact sentinel.right

/-- The parent of the sentinel is not part of the tree. -/
theorem Focus.congr {T T' : KvsRbtree} {path : List (Frame Nat)}
    {tree : ColorTree Nat} (focus : Focus T path tree)
    (root : T'.root = T.root)
    (same : ∀ address, address ≠ nil → T'.nodes address = T.nodes address)
    (sentinel : SentinelOk T') :
    Focus T' path tree := by
  refine ⟨focus.around.congr root ?_, focus.inside.congr ?_, focus.nodup,
    sentinel⟩
  · intro address member
    apply same
    rintro rfl
    exact focus.nil_notMem_around member
  · intro address member
    apply same
    rintro rfl
    exact focus.nil_notMem member

/-- The root of a tree is one of its addresses. -/
theorem rootOf_mem {tree : ColorTree Nat} (real : rootOf tree ≠ nil) :
    rootOf tree ∈ tree.inorder := by
  cases tree with
  | leaf => exact absurd rfl real
  | node color left address right => simp [rootOf, ColorTree.inorder]

/-! ## Transplantation -/

section Transplant

variable {T : KvsRbtree} {path : List (Frame Nat)} {new : ColorTree Nat}
    {u p : Nat}

theorem transplant_eq (around : RepPath T u path)
    (parent : (T.nodes u).parent = pathParent path) (real : u ≠ nil)
    (outside : u ∉ labelsAround path) (v : Nat) :
    rbtreeTransplant T u v =
      (setHole T path v).setParent v (pathParent path) := by
  rw [rbtreeTransplant, relinkAbove_eq around parent real outside, parent]

theorem transplant_nodes (around : RepPath T u path)
    (parent : (T.nodes u).parent = pathParent path) (real : u ≠ nil)
    (outside : u ∉ labelsAround path) {v address : Nat}
    (apart : address ∉ labelsAround path) (other : address ≠ v) :
    (rbtreeTransplant T u v).nodes address = T.nodes address := by
  rw [transplant_eq around parent real outside, setParent_nodes,
    if_neg other, setHole_nodes apart]

theorem sameEntries_transplant (around : RepPath T u path)
    (parent : (T.nodes u).parent = pathParent path) (real : u ≠ nil)
    (outside : u ∉ labelsAround path) (v : Nat) :
    SameEntries T (rbtreeTransplant T u v) := by
  rw [transplant_eq around parent real outside]
  exact (sameEntries_setHole _ _ _).trans (sameEntries_setParent _ _ _)

/-- Transplanting puts another tree into the hole of the path. -/
theorem transplant_focus (around : RepPath T u path)
    (parent : (T.nodes u).parent = pathParent path) (real : u ≠ nil)
    (outside : u ∉ labelsAround path) (inside : Rep T.nodes p new)
    (nodup : (new.inorder ++ labelsAround path).Nodup)
    (sentinel : SentinelOk T) :
    Focus (rbtreeTransplant T u (rootOf new)) path new ∧
      ((rbtreeTransplant T u (rootOf new)).nodes (rootOf new)).parent =
        pathParent path := by
  obtain ⟨innerNodup, outerNodup, apart⟩ := List.nodup_append.mp nodup
  have distinct : ∀ address ∈ new.inorder, address ∉ labelsAround path :=
    fun address member outer => apart address member address outer rfl
  have nilOutside : nil ∉ labelsAround path :=
    fun member => around.real member rfl
  have rootOutside : rootOf new ∉ labelsAround path := by
    cases new with
    | leaf => exact nilOutside
    | node color left address right =>
        exact distinct address (by simp [ColorTree.inorder])
  rw [transplant_eq around parent real outside]
  refine ⟨⟨?_, ?_, nodup, ?_⟩, ?_⟩
  · refine (around.setHole outerNodup (rootOf new)).congr rfl ?_
    intro address member
    rw [setParent_nodes, if_neg]
    rintro rfl
    exact rootOutside member
  · refine inside.reparent innerNodup ?_ ?_
    · intro _
      rw [setParent_nodes, if_pos rfl, setHole_nodes rootOutside]
    · intro address member other
      rw [setParent_nodes, if_neg other,
        setHole_nodes (distinct address member)]
  · apply SentinelOk.setParent
    exact SentinelOk.congr sentinel (setHole_nodes nilOutside)
  · rw [setParent_nodes, if_pos rfl]

end Transplant

/-! ## The node that takes over -/

/-- `rbtree_mini` finds the leftmost node. -/
theorem miniLoop_leftmost {T : KvsRbtree} {parent address fuel : Nat}
    {color : Color} {left right : ColorTree Nat}
    (rep : Rep T.nodes parent (.node color left address right))
    (enough : left.inorder.length ≤ fuel) :
    ∃ inner own sub,
      ColorTree.node color left address right =
        plug inner (.node own .leaf (miniLoop T fuel address) sub) ∧
      labelsBefore inner = [] := by
  induction left generalizing parent address color right fuel with
  | leaf =>
      have here : miniLoop T fuel address = address := by
        cases fuel with
        | zero => rfl
        | succ fuel =>
            rw [miniLoop, if_neg]
            exact not_not.mpr rep.1.left
      rw [here]
      exact ⟨[], color, right, rfl, rfl⟩
  | node color' left' address' right' induction _ =>
      cases fuel with
      | zero => simp [ColorTree.inorder] at enough
      | succ fuel =>
          have below : (T.nodes address).left = address' := rep.1.left
          have next : miniLoop T (fuel + 1) address =
              miniLoop T fuel address' := by
            rw [miniLoop, below, if_pos rep.2.1.1.real]
          have short : left'.inorder.length ≤ fuel := by
            simp only [ColorTree.inorder, List.length_append,
              List.length_cons] at enough
            omega
          obtain ⟨inner, own, sub, split, first⟩ :=
            induction rep.2.1 short
          refine ⟨inner ++ [.onLeft color address right], own, sub, ?_, ?_⟩
          · rw [next, plug_append, ← split]
            rfl
          · rw [labelsBefore_append, first]
            rfl

/-! ## A node with two children -/

/--
The state of a deletion in front of the second transplantation: the successor
`y` has been lifted out with its new right subtree below it, and `z` still
stands in the tree with its left subtree.
-/
structure Lifted (T : KvsRbtree) (path : List (Frame Nat)) (cz : Color)
    (left : ColorTree Nat) (z : Nat) (cy : Color) (y : Nat)
    (right : ColorTree Nat) : Prop where
  around : RepPath T z path
  real : z ≠ nil
  above : (T.nodes z).parent = pathParent path
  color : (T.nodes z).color = cz
  leftLink : (T.nodes z).left = rootOf left
  leftReal : rootOf left ≠ nil
  beside : Rep T.nodes z left
  spare : ∃ p, Rep T.nodes p (.node cy .leaf y right)
  nodup : (left.inorder ++ z :: y :: (right.inorder ++
    labelsAround path)).Nodup
  sentinel : SentinelOk T

/-- The last links of a deletion with two children. -/
def takeOver (T : KvsRbtree) (z y : Nat) : KvsRbtree :=
  let T := rbtreeTransplant T z y
  let T := T.setLeft y (T.nodes z).left
  let T := T.setParent (T.nodes y).left y
  T.setColor y (T.nodes z).color

section TakeOver

variable {T : KvsRbtree} {path : List (Frame Nat)} {cz cy : Color}
    {left right : ColorTree Nat} {z y : Nat}

/-- The tree in which the successor has taken the place of `z` but not yet
its left subtree. -/
theorem Lifted.transplanted (lifted : Lifted T path cz left z cy y right) :
    Focus (rbtreeTransplant T z y) path (.node cy .leaf y right) ∧
      SameEntries T (rbtreeTransplant T z y) ∧
      (∀ address, address ∉ labelsAround path → address ≠ y →
        (rbtreeTransplant T z y).nodes address = T.nodes address) := by
  obtain ⟨_, spare⟩ := lifted.spare
  have nodup := lifted.nodup
  simp only [List.nodup_append, List.nodup_cons, List.mem_cons,
    List.mem_append, not_or] at nodup
  have outside : z ∉ labelsAround path := nodup.2.1.1.2.2
  have distinct : ((ColorTree.node cy .leaf y right).inorder ++
      labelsAround path).Nodup := by
    have tail := (List.nodup_append.mp lifted.nodup).2.1
    simpa [ColorTree.inorder] using (List.nodup_cons.mp tail).2
  refine ⟨?_, ?_, ?_⟩
  · exact (transplant_focus lifted.around lifted.above lifted.real outside
      spare distinct lifted.sentinel).1
  · exact sameEntries_transplant lifted.around lifted.above lifted.real
      outside y
  · intro address apart other
    exact transplant_nodes lifted.around lifted.above lifted.real outside
      apart other

/-- Hanging a subtree to the left of a node without one. -/
theorem graft_focus (focus : Focus T path (.node cy .leaf y right))
    (rep : Rep T.nodes z left) (real : rootOf left ≠ nil)
    (nodup : (left.inorder ++ y :: (right.inorder ++
      labelsAround path)).Nodup) :
    Focus ((T.setLeft y (rootOf left)).setParent (rootOf left) y) path
        (.node cy left y right) := by
  have parts := nodup
  simp only [List.nodup_append, List.nodup_cons, List.mem_cons,
    List.mem_append, not_or] at parts
  have inLeft : rootOf left ∈ left.inorder := rootOf_mem real
  have apart : ∀ address, address = y ∨ address ∈ right.inorder ∨
      address ∈ labelsAround path → address ≠ rootOf left := by
    intro address outside same
    exact parts.2.2 _ inLeft address outside same.symm
  have value : ∀ address, address ≠ y → address ≠ rootOf left →
      ((T.setLeft y (rootOf left)).setParent (rootOf left) y).nodes
        address = T.nodes address := by
    intro address notY notRoot
    simp [notY, notRoot]
  have node := focus.node
  have topApart : y ≠ rootOf left := apart y (Or.inl rfl)
  refine ⟨focus.around.congr rfl ?_, ⟨⟨node.real, ?_, ?_, ?_, ?_⟩, ?_, ?_⟩,
    ?_, ?_⟩
  · intro address member
    refine value address ?_ (apart address (Or.inr (Or.inr member)))
    rintro rfl
    exact parts.2.1.1.2 member
  · simp [topApart, node.color]
  · simp [topApart, node.parent]
  · simp [topApart]
  · simp [topApart, node.right]
  · refine rep.reparent parts.1 ?_ ?_
    · intro _
      simp [topApart.symm]
    · intro address member other
      refine value address ?_ other
      rintro rfl
      exact parts.2.2 _ member _ (Or.inl rfl) rfl
  · refine focus.inside.2.2.congr ?_
    intro address member
    refine value address ?_ (apart address (Or.inr (Or.inl member)))
    rintro rfl
    exact parts.2.1.1.1 member
  · simpa [ColorTree.inorder] using nodup
  · exact SentinelOk.congr focus.sentinel
      (value nil node.real.symm real.symm)

/-- The successor takes over the place, the left subtree and the colour of the
deleted node. -/
theorem Lifted.takeOver (lifted : Lifted T path cz left z cy y right) :
    Focus (takeOver T z y) path (.node cz left y right) ∧
      SameEntries T (RbtreeSplice.takeOver T z y) ∧
      (RbtreeSplice.takeOver T z y).nodes nil = T.nodes nil := by
  obtain ⟨focus, same, kept⟩ := lifted.transplanted
  obtain ⟨_, spare⟩ := lifted.spare
  have nodup := lifted.nodup
  simp only [List.nodup_append, List.nodup_cons, List.mem_cons,
    List.mem_append, not_or] at nodup
  obtain ⟨leftNodup, ⟨⟨zy, _, zOutside⟩, ⟨_, _⟩, _⟩, across⟩ := nodup
  have keptZ := kept z zOutside zy
  have nilOutside : nil ∉ labelsAround path := focus.nil_notMem_around
  have keptNil := kept nil nilOutside spare.1.real.symm
  have rep : Rep (rbtreeTransplant T z y).nodes z left := by
    refine lifted.beside.congr ?_
    intro address member
    refine kept address ?_ ?_
    · intro outer
      exact across address member address
        (Or.inr (Or.inr (Or.inr outer))) rfl
    · rintro rfl
      exact across address member address (Or.inr (Or.inl rfl)) rfl
  have distinct : (left.inorder ++ y :: (right.inorder ++
      labelsAround path)).Nodup := by
    refine lifted.nodup.sublist ?_
    exact (List.Sublist.refl _).append (List.sublist_cons_self _ _)
  have grafted := graft_focus focus rep lifted.leftReal distinct
  have shape : RbtreeSplice.takeOver T z y =
      (((rbtreeTransplant T z y).setLeft y (rootOf left)).setParent
        (rootOf left) y).setColor y cz := by
    have leftLink : ((rbtreeTransplant T z y).nodes z).left =
        rootOf left := by
      rw [keptZ, lifted.leftLink]
    have hung : (((rbtreeTransplant T z y).setLeft y
        (rootOf left)).nodes y).left = rootOf left := by
      simp
    have color : ((((rbtreeTransplant T z y).setLeft y
        (rootOf left)).setParent (rootOf left) y).nodes z).color = cz := by
      rw [setParent_nodes, setLeft_nodes, if_neg zy]
      split_ifs <;> simp only [keptZ, lifted.color]
    rw [RbtreeSplice.takeOver]
    simp only [leftLink, hung, color]
  rw [shape]
  refine ⟨grafted.setColor cz, ?_, ?_⟩
  · refine same.trans ?_
    refine SameEntries.trans (sameEntries_setLeft _ y (rootOf left)) ?_
    exact (sameEntries_setParent _ _ _).trans (sameEntries_setColor _ _ _)
  · rw [setColor_nodes, if_neg spare.1.real.symm, setParent_nodes,
      if_neg lifted.leftReal.symm, setLeft_nodes,
      if_neg spare.1.real.symm, keptNil]

end TakeOver

/-- The first links of a deletion with two children. -/
def liftOut (T : KvsRbtree) (z y : Nat) : KvsRbtree :=
  let x := (T.nodes y).right
  if (T.nodes y).parent = z then T.setParent x y
  else
    let T := rbtreeTransplant T y (T.nodes y).right
    let T := T.setRight y (T.nodes z).right
    T.setParent (T.nodes y).right y

section LiftOut

variable {T : KvsRbtree} {path inner : List (Frame Nat)} {cz cy : Color}
    {left sub : ColorTree Nat} {z y : Nat}

/-- The addresses of a deletion with two children, the successor in front. -/
theorem perm_lifted :
    ((ColorTree.node cz left z (plug inner (.node cy .leaf y sub))).inorder ++
      labelsAround path).Perm
      (left.inorder ++ z :: y :: ((plug inner sub).inorder ++
        labelsAround path)) := by
  have moved : (plug inner (.node cy .leaf y sub)).inorder.Perm
      (y :: (plug inner sub).inorder) := by
    rw [inorder_plug, inorder_plug]
    exact List.perm_middle
  rw [ColorTree.inorder, List.append_assoc]
  refine List.Perm.append_left _ (List.Perm.cons z ?_)
  exact moved.append_right _

/-- The successor is the right child of the deleted node. -/
theorem liftOut_beside
    (focus : Focus T path (.node cz left z (.node cy .leaf y sub)))
    (leftReal : rootOf left ≠ nil) :
    Lifted (liftOut T z y) path cz left z cy y sub ∧
      SameEntries T (liftOut T z y) ∧
      ((liftOut T z y).nodes (rootOf sub)).parent = y := by
  have below := focus.downRight
  have shape : liftOut T z y = T.setParent (rootOf sub) y := by
    have right : (T.nodes y).right = rootOf sub := below.node.right
    have parent : (T.nodes y).parent = z := below.node.parent
    rw [liftOut, right]
    exact if_pos parent
  have moved : Focus (T.setParent (rootOf sub) y) path
      (.node cz left z (.node cy .leaf y sub)) := by
    refine Focus.congr focus rfl ?_
      (SentinelOk.setParent focus.sentinel _ _)
    intro address real
    rw [setParent_nodes]
    split_ifs with here
    · rw [here] at real ⊢
      cases sub with
      | leaf => exact absurd rfl real
      | node color left' address' right' =>
          have parent : (T.nodes address').parent = y :=
            below.downRight.node.parent
          rw [rootOf_node, ← parent]
    · rfl
  rw [shape]
  refine ⟨⟨moved.around, moved.node.real, moved.node.parent,
    moved.node.color, moved.node.left, leftReal, moved.inside.2.1,
    ⟨z, moved.inside.2.2⟩, ?_, moved.sentinel⟩,
    sameEntries_setParent _ _ _, ?_⟩
  · exact (@perm_lifted path [] cz cy left sub z y).nodup_iff.mp focus.nodup
  · rw [setParent_nodes, if_pos rfl]

/-- The successor lies deeper in the right subtree. -/
theorem liftOut_below {frame : Frame Nat}
    (focus : Focus T path
      (.node cz left z (plug (frame :: inner) (.node cy .leaf y sub))))
    (leftReal : rootOf left ≠ nil) :
    Lifted (liftOut T z y) path cz left z cy y (plug (frame :: inner) sub) ∧
      SameEntries T (liftOut T z y) ∧
      ((liftOut T z y).nodes nil).parent =
        ((rbtreeTransplant T y (rootOf sub)).nodes nil).parent ∧
      ((rbtreeTransplant T y (rootOf sub)).nodes (rootOf sub)).parent =
        frame.label := by
  have below : Focus T ((frame :: inner) ++ .onRight cz left z :: path)
      (.node cy .leaf y sub) := focus_iff_plug.mpr focus.downRight
  have nodup := perm_lifted.nodup_iff.mp focus.nodup
  have parts := nodup
  simp only [List.nodup_append, List.nodup_cons, List.mem_cons,
    List.mem_append, not_or] at parts
  obtain ⟨leftNodup, ⟨⟨zy, zRight, zPath⟩, ⟨yRight, yPath⟩,
    rightNodup, pathNodup, rightPath⟩, across⟩ := parts
  have yOutside : y ∉ labelsAround
      ((frame :: inner) ++ .onRight cz left z :: path) :=
    below.notMem_around (by simp [ColorTree.inorder])
  have subNodup : (sub.inorder ++ labelsAround
      ((frame :: inner) ++ .onRight cz left z :: path)).Nodup := by
    refine below.nodup.sublist (List.Sublist.append ?_ (List.Sublist.refl _))
    exact List.sublist_cons_self _ _
  have yReal := below.node.real
  have around : RepPath T y
      ((frame :: inner) ++ .onRight cz left z :: path) := below.around
  obtain ⟨lifted, parent⟩ := transplant_focus around below.node.parent
    yReal yOutside below.inside.2.2 subNodup below.sentinel
  have entries := sameEntries_transplant around below.node.parent
    yReal yOutside (rootOf sub)
  have keptY : (rbtreeTransplant T y (rootOf sub)).nodes y = T.nodes y := by
    refine transplant_nodes around below.node.parent yReal yOutside
      yOutside (rootOf_ne yReal ?_)
    intro member
    have own := (List.nodup_append.mp below.nodup).1
    exact (List.nodup_cons.mp own).1 member
  have labelMem : ∀ tree, frame.label ∈ (plug (frame :: inner) tree).inorder := by
    intro tree
    rw [plug, inorder_plug]
    cases frame <;> simp [Frame.fill, Frame.label, ColorTree.inorder]
  have notParent : (T.nodes y).parent ≠ z := by
    have above : (T.nodes y).parent = frame.label := below.node.parent
    rw [above]
    rintro same
    exact zRight (by rw [← same]; exact labelMem sub)
  generalize moved : rbtreeTransplant T y (rootOf sub) = M at *
  have whole : Focus M path
      (.node cz left z (plug (frame :: inner) sub)) :=
    (focus_iff_plug.mp lifted).up
  have rightReal : rootOf (plug (frame :: inner) sub) ≠ nil := by
    have member := labelMem sub
    intro none
    cases tree : plug (frame :: inner) sub with
    | leaf =>
        rw [tree] at member
        exact absurd member List.not_mem_nil
    | node color left' address right' =>
        rw [tree] at none whole
        exact whole.downRight.node.real none
  generalize rest : plug (frame :: inner) sub = right at *
  have shape : liftOut T z y =
      (M.setRight y (rootOf right)).setParent (rootOf right) y := by
    have link : (T.nodes y).right = rootOf sub := below.node.right
    rw [liftOut, if_neg notParent, link]
    dsimp only
    rw [moved, whole.node.right]
    simp
  have value : ∀ address, address ≠ y → address ≠ rootOf right →
      ((M.setRight y (rootOf right)).setParent (rootOf right) y).nodes
        address = M.nodes address := by
    intro address notY notRoot
    simp [notY, notRoot]
  have rootMem := rootOf_mem rightReal
  have yRoot : y ≠ rootOf right := by
    rintro rfl
    exact yRight rootMem
  have keptZ := value z zy (by rintro rfl; exact zRight rootMem)
  rw [shape]
  refine ⟨⟨?_, whole.node.real, ?_, ?_, ?_, leftReal, ?_, ⟨(M.nodes y).parent,
    ⟨yReal, ?_, ?_, ?_, ?_⟩, trivial, ?_⟩, nodup, ?_⟩, ?_, ?_, parent⟩
  · refine whole.around.congr rfl ?_
    intro address member
    refine value address ?_ ?_
    · rintro rfl
      exact yPath member
    · rintro rfl
      exact rightPath _ rootMem _ member rfl
  · rw [keptZ, whole.node.parent]
  · rw [keptZ, whole.node.color]
  · rw [keptZ, whole.node.left]
  · refine whole.inside.2.1.congr ?_
    intro address member
    refine value address ?_ ?_
    · rintro rfl
      exact across _ member _ (Or.inr (Or.inl rfl)) rfl
    · rintro rfl
      exact across _ member _ (Or.inr (Or.inr (Or.inl rootMem))) rfl
  · simp [yRoot, keptY, below.node.color]
  · simp [yRoot]
  · simp [yRoot, keptY, below.node.left]
  · simp [yRoot]
  · refine whole.inside.2.2.reparent rightNodup ?_ ?_
    · intro _
      simp [yRoot.symm]
    · intro address member other
      refine value address ?_ other
      rintro rfl
      exact yRight member
  · exact SentinelOk.congr whole.sentinel (value nil yReal.symm rightReal.symm)
  · exact entries.trans ((sameEntries_setRight M y (rootOf right)).trans
      (sameEntries_setParent _ _ _))
  · rw [value nil yReal.symm rightReal.symm]

/-- Lifting out the successor leaves the tree ready for the second
transplantation. -/
theorem liftOut_lifted
    (focus : Focus T path
      (.node cz left z (plug inner (.node cy .leaf y sub))))
    (leftReal : rootOf left ≠ nil) :
    Lifted (liftOut T z y) path cz left z cy y (plug inner sub) ∧
      SameEntries T (liftOut T z y) ∧
      (sub = .leaf → ((liftOut T z y).nodes nil).parent =
        pathParent (inner ++ .onRight cz left y :: path)) := by
  cases inner with
  | nil =>
      obtain ⟨lifted, same, parent⟩ := liftOut_beside focus leftReal
      refine ⟨lifted, same, ?_⟩
      rintro rfl
      exact parent
  | cons frame inner =>
      obtain ⟨lifted, same, kept, parent⟩ := liftOut_below focus leftReal
      refine ⟨lifted, same, ?_⟩
      rintro rfl
      exact kept.trans parent

end LiftOut

/-! ## Deletion -/

section Deletion

variable {T : KvsRbtree} {path : List (Frame Nat)} {cz : Color}
    {left right : ColorTree Nat} {z : Nat}

/-- The end of a deletion, after the links have been changed. -/
def finishDelete (T : KvsRbtree) (x : Nat) (original : Color) : KvsRbtree :=
  if original = .black then rbtreeDeleteFixup T x else T

/-- The repair after a node with one missing child has given way to the
other child. -/
theorem finishDelete_focus {color own : Color} {height label : Nat}
    {tree sub : ColorTree Nat} (focus : Focus T path sub)
    (parent : (T.nodes (rootOf sub)).parent = pathParent path)
    (fits : Fits path color height) (balanced : RedBlack color height tree)
    (shape : tree = .node own .leaf label sub ∨
      tree = .node own sub label .leaf)
    (enough : path.length ≤ T.next) :
    ∃ tree', Focus (finishDelete T (rootOf sub) own) [] tree' ∧
      SameEntries T (finishDelete T (rootOf sub) own) ∧
      tree'.inorder = (plug path sub).inorder ∧
      ∃ total, RedBlack .black total tree' := by
  obtain ⟨kept, lost⟩ := fits.splice balanced shape
  cases own with
  | red =>
      exact ⟨_, focus.whole, SameEntries.refl T, rfl, kept rfl⟩
  | black =>
      exact rbtreeDeleteFixup_focus ⟨focus, parent, lost rfl⟩ enough

/-- A node with at most one child is replaced by it. -/
theorem transplant_delete {color : Color} {height : Nat}
    {sub : ColorTree Nat}
    (focus : Focus T path (.node cz left z right))
    (rep : Rep T.nodes z sub)
    (fits : Fits path color height)
    (balanced : RedBlack color height (.node cz left z right))
    (shape : (left = .leaf ∧ right = sub) ∨ (left = sub ∧ right = .leaf))
    (enough : path.length ≤ T.next) :
    ∃ tree',
      Focus (finishDelete (rbtreeTransplant T z (rootOf sub)) (rootOf sub)
        cz) [] tree' ∧
      SameEntries T (finishDelete (rbtreeTransplant T z (rootOf sub))
        (rootOf sub) cz) ∧
      tree'.inorder = labelsBefore path ++
        (left.inorder ++ right.inorder ++ labelsAfter path) ∧
      ∃ total, RedBlack .black total tree' := by
  have around : RepPath T z path := focus.around
  have outside : z ∉ labelsAround path :=
    focus.notMem_around (by simp [ColorTree.inorder])
  have labels : left.inorder ++ right.inorder = sub.inorder := by
    rcases shape with ⟨rfl, rfl⟩ | ⟨rfl, rfl⟩ <;>
      simp [ColorTree.inorder]
  have nodup : (sub.inorder ++ labelsAround path).Nodup := by
    rw [← labels]
    refine focus.nodup.sublist (List.Sublist.append ?_ (List.Sublist.refl _))
    exact (List.Sublist.refl _).append (List.sublist_cons_self _ _)
  have same := sameEntries_transplant around focus.node.parent
    focus.node.real outside (rootOf sub)
  obtain ⟨moved, parent⟩ := transplant_focus around focus.node.parent
    focus.node.real outside rep nodup focus.sentinel
  have one : ColorTree.node cz left z right = .node cz .leaf z sub ∨
      ColorTree.node cz left z right = .node cz sub z .leaf := by
    rcases shape with ⟨rfl, rfl⟩ | ⟨rfl, rfl⟩
    · exact Or.inl rfl
    · exact Or.inr rfl
  obtain ⟨tree', focus', same', order, total⟩ :=
    finishDelete_focus moved parent fits balanced one
      (by rw [same.next]; exact enough)
  refine ⟨tree', focus', same.trans same', ?_, total⟩
  rw [order, inorder_plug, labels]

/-- A node with two children is replaced by its successor. -/
theorem successor_delete {color : Color} {height : Nat}
    (focus : Focus T path (.node cz left z right))
    (fits : Fits path color height)
    (balanced : RedBlack color height (.node cz left z right))
    (leftReal : rootOf left ≠ nil) (rightReal : rootOf right ≠ nil)
    (enough : (plug path (.node cz left z right)).inorder.length ≤ T.next) :
    ∃ tree',
      Focus (finishDelete
        (takeOver (liftOut T z (rbtreeMini T (rootOf right))) z
          (rbtreeMini T (rootOf right)))
        (T.nodes (rbtreeMini T (rootOf right))).right
        (T.nodes (rbtreeMini T (rootOf right))).color) [] tree' ∧
      SameEntries T (finishDelete
        (takeOver (liftOut T z (rbtreeMini T (rootOf right))) z
          (rbtreeMini T (rootOf right)))
        (T.nodes (rbtreeMini T (rootOf right))).right
        (T.nodes (rbtreeMini T (rootOf right))).color) ∧
      tree'.inorder = labelsBefore path ++
        (left.inorder ++ right.inorder ++ labelsAfter path) ∧
      ∃ total, RedBlack .black total tree' := by
  obtain ⟨inner, cy, sub, split, first⟩ : ∃ inner cy sub,
      right = plug inner
        (.node cy .leaf (rbtreeMini T (rootOf right)) sub) ∧
      labelsBefore inner = [] := by
    cases right with
    | leaf => exact absurd rfl rightReal
    | node color' left' address right' =>
        refine miniLoop_leftmost focus.inside.2.2 ?_
        have length := congrArg List.length
          (inorder_plug path (.node cz left z
            (.node color' left' address right')))
        simp only [ColorTree.inorder, List.length_append,
          List.length_cons] at length
        omega
  generalize rbtreeMini T (rootOf right) = y at split ⊢
  subst split
  have below : Focus T (inner ++ .onRight cz left z :: path)
      (.node cy .leaf y sub) := focus_iff_plug.mpr focus.downRight
  obtain ⟨lifted, same, sentinel⟩ := liftOut_lifted focus leftReal
  obtain ⟨taken, same', kept⟩ := lifted.takeOver
  have place : Focus (takeOver (liftOut T z y) z y)
      (inner ++ .onRight cz left y :: path) sub :=
    focus_iff_plug.mpr taken.downRight
  have parent : ((takeOver (liftOut T z y) z y).nodes (rootOf sub)).parent =
      pathParent (inner ++ .onRight cz left y :: path) := by
    cases sub with
    | leaf =>
        rw [← sentinel rfl]
        exact congrArg RbNode.parent kept
    | node color' left' address right' => exact place.node.parent
  have whole : ∃ total, RedBlack .black total
      (plug (inner ++ .onRight cz left z :: path)
        (.node cy .leaf y sub)) := by
    rw [plug_append]
    exact fits.plug balanced
  obtain ⟨_, whole⟩ := whole
  obtain ⟨color', height', inside, outside⟩ := whole.unplug
  have short : (inner ++ .onRight cz left y :: path).length ≤
      (takeOver (liftOut T z y) z y).next := by
    have labels := (perm_plug (inner ++ .onRight cz left z :: path)
      (.node cy .leaf y sub)).length_eq
    have levels := length_le_labelsAround
      (inner ++ .onRight cz left z :: path)
    rw [plug_append] at labels
    rw [same'.next, same.next]
    simp only [List.length_append, List.length_cons, plug, Frame.fill]
      at labels levels enough ⊢
    omega
  obtain ⟨tree', focus', same'', order, total⟩ :=
    finishDelete_focus place parent (outside.relabel y) inside
      (Or.inl rfl) short
  have link : (T.nodes y).right = rootOf sub := below.node.right
  have color'' : (T.nodes y).color = cy := below.node.color
  rw [link, color'']
  refine ⟨tree', focus', same.trans (same'.trans same''), ?_, total⟩
  rw [order, plug_append, plug, inorder_plug, Frame.fill, ColorTree.inorder,
    inorder_plug, inorder_plug, first, ColorTree.inorder, ColorTree.inorder]
  simp

/-- `rbtree_delete` takes one node out of the tree. -/
theorem rbtreeDelete_focus
    (focus : Focus T path (.node cz left z right)) {total : Nat}
    (balanced : RedBlack .black total (plug path (.node cz left z right)))
    (enough : (plug path (.node cz left z right)).inorder.length ≤ T.next) :
    ∃ tree', Focus (rbtreeDelete T z) [] tree' ∧
      SameEntries T (rbtreeDelete T z) ∧
      tree'.inorder = labelsBefore path ++
        (left.inorder ++ right.inorder ++ labelsAfter path) ∧
      ∃ total, RedBlack .black total tree' := by
  obtain ⟨color, height, inside, fits⟩ := balanced.unplug
  have short : path.length ≤ T.next := by
    have labels := (perm_plug path (.node cz left z right)).length_eq
    have levels := length_le_labelsAround path
    rw [List.length_append] at labels
    omega
  have node := focus.node
  by_cases noLeft : rootOf left = nil
  · obtain rfl : left = .leaf := by
      cases left with
      | leaf => rfl
      | node color' left' address right' =>
          exact absurd noLeft focus.downLeft.node.real
    have shape : rbtreeDelete T z =
        finishDelete (rbtreeTransplant T z (rootOf right)) (rootOf right)
          cz := by
      rw [rbtreeDelete, rbtreeUnlink, node.left, if_pos noLeft, node.right,
        node.color]
      rfl
    rw [shape]
    exact transplant_delete focus focus.inside.2.2 fits inside
      (Or.inl ⟨rfl, rfl⟩) short
  · by_cases noRight : rootOf right = nil
    · obtain rfl : right = .leaf := by
        cases right with
        | leaf => rfl
        | node color' left' address right' =>
            exact absurd noRight focus.downRight.node.real
      have shape : rbtreeDelete T z =
          finishDelete (rbtreeTransplant T z (rootOf left)) (rootOf left)
            cz := by
        rw [rbtreeDelete, rbtreeUnlink, node.left, if_neg noLeft,
          node.right, if_pos noRight, node.color]
        rfl
      rw [shape]
      exact transplant_delete focus focus.inside.2.1 fits inside
        (Or.inr ⟨rfl, rfl⟩) short
    · have shape : rbtreeDelete T z =
          finishDelete
            (takeOver (liftOut T z (rbtreeMini T (rootOf right))) z
              (rbtreeMini T (rootOf right)))
            (T.nodes (rbtreeMini T (rootOf right))).right
            (T.nodes (rbtreeMini T (rootOf right))).color := by
        rw [rbtreeDelete, rbtreeUnlink, node.left, if_neg noLeft,
          node.right, if_neg noRight]
        simp only [finishDelete, liftOut, takeOver]
      rw [shape]
      exact successor_delete focus fits inside noLeft noRight enough

end Deletion

/-! ## Insertion -/

/-- The node above a hole and the side of the hole, as a search that came from
`parent` reports them. -/
def landing (parent : Nat) (cmp : Ordering) :
    List (Frame Nat) → Nat × Ordering
  | [] => (parent, cmp)
  | .onLeft _ address _ :: _ => (address, .lt)
  | .onRight _ _ address :: _ => (address, .gt)

section Insertion

variable {T : KvsRbtree} {path : List (Frame Nat)}

/-- The heap with a new red node that nothing refers to. -/
def allocate (T : KvsRbtree) (parent : Nat) (entry : Entry) : KvsRbtree :=
  { T with
    nodes := fun address =>
      if address = T.next then
        { color := .red
          left := nil
          right := nil
          parent := parent
          entry := entry }
      else T.nodes address
    next := T.next + 1 }

theorem allocate_nodes (parent : Nat) (entry : Entry) {address : Nat}
    (old : address ≠ T.next) :
    (allocate T parent entry).nodes address = T.nodes address :=
  if_neg old

/-- The new node is hung where the search ended. -/
theorem rbtreeInsertAt_eq (focus : Focus T path .leaf) (entry : Entry) :
    rbtreeInsertAt T (landing nil .eq path).1 (landing nil .eq path).2 entry =
      rbtreeInsertFixup
        (setHole (allocate T (pathParent path) entry) path T.next)
        T.next := by
  cases path with
  | nil => rfl
  | cons frame path =>
      cases frame with
      | onLeft color address right =>
          have real : address ≠ nil := focus.up.node.real
          rw [landing, rbtreeInsertAt, if_neg real, if_pos rfl]
          rfl
      | onRight color left address =>
          have real : address ≠ nil := focus.up.node.real
          rw [landing, rbtreeInsertAt, if_neg real, if_neg (by simp)]
          rfl

/-- The heap with the new node in place holds it in the hole. -/
theorem hang_focus (focus : Focus T path .leaf)
    (live : ∀ address ∈ labelsAround path, address < T.next)
    (heap : 0 < T.next) (entry : Entry) :
    Focus (setHole (allocate T (pathParent path) entry) path T.next) path
      (.node .red .leaf T.next .leaf) := by
  have fresh : T.next ∉ labelsAround path :=
    fun member => Nat.lt_irrefl _ (live _ member)
  have real : T.next ≠ nil := Nat.ne_of_gt heap
  have nodup : (labelsAround path).Nodup := focus.nodup
  have old : RepPath (allocate T (pathParent path) entry) nil path := by
    refine focus.around.congr rfl ?_
    intro address member
    apply allocate_nodes
    rintro rfl
    exact fresh member
  have value : (setHole (allocate T (pathParent path) entry) path
      T.next).nodes T.next =
        { color := .red
          left := nil
          right := nil
          parent := pathParent path
          entry := entry } := by
    rw [setHole_nodes fresh]
    exact if_pos rfl
  refine ⟨old.setHole nodup T.next, ⟨⟨real, ?_, ?_, ?_, ?_⟩, trivial,
    trivial⟩, List.nodup_cons.mpr ⟨fresh, nodup⟩, ?_⟩
  · rw [value]
  · rw [value]
  · rw [value]
    rfl
  · rw [value]
    rfl
  · refine SentinelOk.congr focus.sentinel ?_
    rw [setHole_nodes focus.nil_notMem_around, allocate_nodes _ _ real.symm]

/-- Inserting adds one node to the tree. -/
theorem rbtreeInsertAt_focus (focus : Focus T path .leaf) {total : Nat}
    (balanced : RedBlack .black total (plug path .leaf))
    (live : ∀ address ∈ labelsAround path, address < T.next)
    (heap : 0 < T.next) (enough : path.length ≤ T.next) (entry : Entry) :
    ∃ tree',
      Focus (rbtreeInsertAt T (landing nil .eq path).1
        (landing nil .eq path).2 entry) [] tree' ∧
      SameEntries (allocate T (pathParent path) entry)
        (rbtreeInsertAt T (landing nil .eq path).1
          (landing nil .eq path).2 entry) ∧
      tree'.inorder = labelsBefore path ++ T.next :: labelsAfter path ∧
      ∃ total, RedBlack .black total tree' := by
  obtain ⟨color, height, inside, fits⟩ := balanced.unplug
  cases inside
  have hung := hang_focus focus live heap entry
  have same := sameEntries_setHole (allocate T (pathParent path) entry) path
    T.next
  have short : path.length <
      (setHole (allocate T (pathParent path) entry) path T.next).next := by
    rw [same.next]
    exact Nat.lt_succ_of_le enough
  obtain ⟨tree', focus', same', order, total'⟩ :=
    rbtreeInsertFixup_focus hung .leaf .leaf fits short
  rw [rbtreeInsertAt_eq focus entry]
  refine ⟨tree', focus', same.trans same', ?_, total'⟩
  rw [order, inorder_plug]
  rfl

end Insertion

end Kivo.Engine.RbtreeSplice
