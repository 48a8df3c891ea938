import Mathlib.Algebra.Group.Nat.Defs
import Mathlib.Data.List.Basic

/-!
# Red-black trees with a hole

Trees with coloured nodes, and the path from a hole in a tree up to its root.
A path lists the frames that are passed on the way, innermost first; plugging
a tree into the hole gives back a whole tree.  The red-black conditions are
stated for trees and for paths: a path fits a colour and a black height when
plugging such a tree gives a red-black tree with a black root.  Balancing
algorithms that climb from a node towards the root work on the two halves of
this picture.
-/

namespace Kivo.Clib.RedBlackTree

/-! ## Trees and paths -/

/-- Node colours. -/
inductive Color where
  | red
  | black
deriving DecidableEq, Repr

/-- A binary tree with coloured and labelled nodes. -/
inductive ColorTree (α : Type) where
  | leaf
  | node (color : Color) (left : ColorTree α) (label : α) (right : ColorTree α)

/-- A node above a hole, with the subtree on its other side. -/
inductive Frame (α : Type) where
  | onLeft (color : Color) (label : α) (right : ColorTree α)
  | onRight (color : Color) (left : ColorTree α) (label : α)

variable {α : Type}

/-- The label of a frame. -/
def Frame.label : Frame α → α
  | .onLeft _ label _ => label
  | .onRight _ _ label => label

/-- The colour of a frame. -/
def Frame.color : Frame α → Color
  | .onLeft color _ _ => color
  | .onRight color _ _ => color

/-- Put a tree into the hole of a frame. -/
def Frame.fill : Frame α → ColorTree α → ColorTree α
  | .onLeft color label right, tree => .node color tree label right
  | .onRight color left label, tree => .node color left label tree

/-- Put a tree into the hole of a path. -/
def plug : List (Frame α) → ColorTree α → ColorTree α
  | [], tree => tree
  | frame :: rest, tree => plug rest (frame.fill tree)

/-- The labels in order. -/
def ColorTree.inorder : ColorTree α → List α
  | .leaf => []
  | .node _ left label right => left.inorder ++ label :: right.inorder

/-- The labels in front of the hole. -/
def labelsBefore : List (Frame α) → List α
  | [] => []
  | .onLeft _ _ _ :: rest => labelsBefore rest
  | .onRight _ left label :: rest =>
      labelsBefore rest ++ (left.inorder ++ [label])

/-- The labels behind the hole. -/
def labelsAfter : List (Frame α) → List α
  | [] => []
  | .onLeft _ label right :: rest =>
      label :: right.inorder ++ labelsAfter rest
  | .onRight _ _ _ :: rest => labelsAfter rest

/-- The labels around the hole, from the inside out. -/
def labelsAround : List (Frame α) → List α
  | [] => []
  | .onLeft _ label right :: rest =>
      label :: (right.inorder ++ labelsAround rest)
  | .onRight _ left label :: rest =>
      label :: (left.inorder ++ labelsAround rest)

theorem plug_append (inner outer : List (Frame α)) (tree : ColorTree α) :
    plug (inner ++ outer) tree = plug outer (plug inner tree) := by
  induction inner generalizing tree with
  | nil => rfl
  | cons frame inner induction =>
      rw [List.cons_append, plug, plug, induction]

theorem labelsBefore_append (inner outer : List (Frame α)) :
    labelsBefore (inner ++ outer) =
      labelsBefore outer ++ labelsBefore inner := by
  induction inner with
  | nil => simp [labelsBefore]
  | cons frame inner induction =>
      cases frame <;> simp [labelsBefore, induction]

theorem labelsAfter_append (inner outer : List (Frame α)) :
    labelsAfter (inner ++ outer) =
      labelsAfter inner ++ labelsAfter outer := by
  induction inner with
  | nil => simp [labelsAfter]
  | cons frame inner induction =>
      cases frame <;> simp [labelsAfter, induction]

theorem length_le_labelsAround (path : List (Frame α)) :
    path.length ≤ (labelsAround path).length := by
  induction path with
  | nil => exact Nat.le_refl _
  | cons frame path induction =>
      cases frame with
      | onLeft color label right =>
          simp only [labelsAround, List.length_cons, List.length_append]
          omega
      | onRight color left label =>
          simp only [labelsAround, List.length_cons, List.length_append]
          omega

theorem inorder_plug (path : List (Frame α)) (tree : ColorTree α) :
    (plug path tree).inorder =
      labelsBefore path ++ (tree.inorder ++ labelsAfter path) := by
  induction path generalizing tree with
  | nil => simp [plug, labelsBefore, labelsAfter]
  | cons frame path induction =>
      rw [plug, induction]
      cases frame <;>
        simp [Frame.fill, ColorTree.inorder, labelsBefore, labelsAfter]

/-- A filled frame holds the labels of the tree and of the frame. -/
theorem perm_fill (frame : Frame α) (path : List (Frame α))
    (tree : ColorTree α) :
    ((frame.fill tree).inorder ++ labelsAround path).Perm
      (tree.inorder ++ labelsAround (frame :: path)) := by
  cases frame with
  | onLeft color label right =>
      simp only [Frame.fill, ColorTree.inorder, labelsAround, List.append_assoc,
        List.cons_append]
      exact List.Perm.refl _
  | onRight color left label =>
      simp only [Frame.fill, ColorTree.inorder, labelsAround, List.append_assoc,
        List.cons_append]
      have swapped : (left.inorder ++ (tree.inorder ++ labelsAround path)).Perm
          (tree.inorder ++ (left.inorder ++ labelsAround path)) := by
        rw [← List.append_assoc, ← List.append_assoc]
        exact List.perm_append_comm.append_right _
      exact List.perm_middle.trans
        ((swapped.cons label).trans List.perm_middle.symm)

theorem perm_plug (path : List (Frame α)) (tree : ColorTree α) :
    (plug path tree).inorder.Perm (tree.inorder ++ labelsAround path) := by
  induction path generalizing tree with
  | nil => simp [plug, labelsAround]
  | cons frame path induction =>
      exact (induction (frame.fill tree)).trans (perm_fill frame path tree)

/-- What is plugged in matters to the order only through its own labels. -/
theorem inorder_plug_congr {path : List (Frame α)} {first second : ColorTree α}
    (same : first.inorder = second.inorder) :
    (plug path first).inorder = (plug path second).inorder := by
  rw [inorder_plug, inorder_plug, same]

/-- Every label of a tree is the label of a node with a path above it. -/
theorem exists_plug_of_mem {tree : ColorTree α} {label : α}
    (member : label ∈ tree.inorder) :
    ∃ path color left right,
      tree = plug path (.node color left label right) := by
  induction tree with
  | leaf => exact absurd member List.not_mem_nil
  | node color left own right inductionLeft inductionRight =>
      rcases List.mem_append.mp member with inLeft | inRight
      · obtain ⟨path, color', left', right', split⟩ := inductionLeft inLeft
        refine ⟨path ++ [.onLeft color own right], color', left', right', ?_⟩
        rw [plug_append, ← split]
        rfl
      · rcases List.mem_cons.mp inRight with rfl | inRight
        · exact ⟨[], color, left, right, rfl⟩
        · obtain ⟨path, color', left', right', split⟩ :=
            inductionRight inRight
          refine
            ⟨path ++ [.onRight color left own], color', left', right', ?_⟩
          rw [plug_append, ← split]
          rfl

/-! ## Mirroring -/

/-- The mirror image of a tree. -/
def ColorTree.mirror : ColorTree α → ColorTree α
  | .leaf => .leaf
  | .node color left label right =>
      .node color right.mirror label left.mirror

/-- The mirror image of a frame. -/
def Frame.mirror : Frame α → Frame α
  | .onLeft color label right => .onRight color right.mirror label
  | .onRight color left label => .onLeft color label left.mirror

@[simp]
theorem mirror_mirror (tree : ColorTree α) : tree.mirror.mirror = tree := by
  induction tree with
  | leaf => rfl
  | node color left label right inductionLeft inductionRight =>
      rw [ColorTree.mirror, ColorTree.mirror, inductionLeft, inductionRight]

@[simp]
theorem frame_mirror_mirror (frame : Frame α) :
    frame.mirror.mirror = frame := by
  cases frame <;> simp [Frame.mirror]

@[simp]
theorem frame_mirror_comp_mirror :
    (Frame.mirror ∘ Frame.mirror : Frame α → Frame α) = id :=
  funext frame_mirror_mirror

theorem plug_mirror (path : List (Frame α)) (tree : ColorTree α) :
    plug (path.map Frame.mirror) tree.mirror = (plug path tree).mirror := by
  induction path generalizing tree with
  | nil => rfl
  | cons frame path induction =>
      rw [List.map_cons, plug, plug, ← induction]
      cases frame <;> rfl

theorem inorder_mirror (tree : ColorTree α) :
    tree.mirror.inorder = tree.inorder.reverse := by
  induction tree with
  | leaf => rfl
  | node color left label right inductionLeft inductionRight =>
      simp [ColorTree.mirror, ColorTree.inorder, inductionLeft, inductionRight]

/-! ## The red-black conditions -/

/--
A red-black tree with its root colour and its black height: a red node has
black children, and both children of a node have the same black height.
-/
inductive RedBlack : Color → Nat → ColorTree α → Prop where
  | leaf : RedBlack .black 0 .leaf
  | red {height : Nat} {left right : ColorTree α} {label : α}
      (onLeft : RedBlack .black height left)
      (onRight : RedBlack .black height right) :
      RedBlack .red height (.node .red left label right)
  | black {height : Nat} {left right : ColorTree α} {label : α}
      {leftColor rightColor : Color}
      (onLeft : RedBlack leftColor height left)
      (onRight : RedBlack rightColor height right) :
      RedBlack .black (height + 1) (.node .black left label right)

/--
A path fits a colour and a black height when the hole takes trees of that
colour and height in a red-black tree with a black root.
-/
inductive Fits : List (Frame α) → Color → Nat → Prop where
  | top {height : Nat} : Fits [] .black height
  | redLeft {height : Nat} {label : α} {right : ColorTree α}
      {rest : List (Frame α)}
      (sibling : RedBlack .black height right)
      (above : Fits rest .red height) :
      Fits (.onLeft .red label right :: rest) .black height
  | redRight {height : Nat} {label : α} {left : ColorTree α}
      {rest : List (Frame α)}
      (sibling : RedBlack .black height left)
      (above : Fits rest .red height) :
      Fits (.onRight .red left label :: rest) .black height
  | blackLeft {height : Nat} {color siblingColor : Color} {label : α}
      {right : ColorTree α} {rest : List (Frame α)}
      (sibling : RedBlack siblingColor height right)
      (above : Fits rest .black (height + 1)) :
      Fits (.onLeft .black label right :: rest) color height
  | blackRight {height : Nat} {color siblingColor : Color} {label : α}
      {left : ColorTree α} {rest : List (Frame α)}
      (sibling : RedBlack siblingColor height left)
      (above : Fits rest .black (height + 1)) :
      Fits (.onRight .black left label :: rest) color height

/-- Plugging a fitting tree gives a red-black tree with a black root. -/
theorem Fits.plug {path : List (Frame α)} {color : Color} {height : Nat}
    {tree : ColorTree α} (fits : Fits path color height)
    (balanced : RedBlack color height tree) :
    ∃ total, RedBlack .black total (plug path tree) := by
  induction fits generalizing tree with
  | top => exact ⟨_, balanced⟩
  | redLeft sibling above induction =>
      exact induction (RedBlack.red balanced sibling)
  | redRight sibling above induction =>
      exact induction (RedBlack.red sibling balanced)
  | blackLeft sibling above induction =>
      exact induction (RedBlack.black balanced sibling)
  | blackRight sibling above induction =>
      exact induction (RedBlack.black sibling balanced)

/-- A red-black tree splits into a subtree and a fitting path. -/
theorem RedBlack.unplug {path : List (Frame α)} {tree : ColorTree α}
    {total : Nat} (balanced : RedBlack .black total (plug path tree)) :
    ∃ color height, RedBlack color height tree ∧
      Fits path color height := by
  induction path generalizing tree with
  | nil => exact ⟨.black, total, balanced, Fits.top⟩
  | cons frame path induction =>
      obtain ⟨color, height, filled, above⟩ := induction balanced
      cases frame with
      | onLeft own label right =>
          cases filled with
          | red onLeft onRight => exact ⟨_, _, onLeft, .redLeft onRight above⟩
          | black onLeft onRight =>
              exact ⟨_, _, onLeft, .blackLeft onRight above⟩
      | onRight own left label =>
          cases filled with
          | red onLeft onRight => exact ⟨_, _, onRight, .redRight onLeft above⟩
          | black onLeft onRight =>
              exact ⟨_, _, onRight, .blackRight onLeft above⟩

/-- A hole that takes red trees takes black ones as well. -/
theorem Fits.toBlack {path : List (Frame α)} {color : Color} {height : Nat}
    (fits : Fits path color height) :
    Fits path .black height := by
  cases fits with
  | top => exact .top
  | redLeft sibling above => exact .redLeft sibling above
  | redRight sibling above => exact .redRight sibling above
  | blackLeft sibling above => exact .blackLeft sibling above
  | blackRight sibling above => exact .blackRight sibling above

/-- Two black trees of the height of a hole may take the place of its frame's
children. -/
theorem Fits.rebuild {frame : Frame α} {rest : List (Frame α)}
    {color : Color} {height : Nat} {left right : ColorTree α} {label : α}
    (fits : Fits (frame :: rest) color height)
    (onLeft : RedBlack .black height left)
    (onRight : RedBlack .black height right) :
    ∃ total, RedBlack .black total
      (Kivo.Clib.RedBlackTree.plug rest
        (.node frame.color left label right)) := by
  cases fits with
  | redLeft sibling above => exact above.plug (.red onLeft onRight)
  | redRight sibling above => exact above.plug (.red onLeft onRight)
  | blackLeft sibling above => exact above.plug (.black onLeft onRight)
  | blackRight sibling above => exact above.plug (.black onLeft onRight)

/-- The labels of a path are irrelevant to what it fits. -/
theorem Fits.relabel {inner outer : List (Frame α)} {color own : Color}
    {height : Nat} {left : ColorTree α} {first : α} (second : α)
    (fits : Fits (inner ++ .onRight own left first :: outer) color height) :
    Fits (inner ++ .onRight own left second :: outer) color height := by
  induction inner generalizing color height with
  | nil =>
      cases fits with
      | redRight sibling above => exact .redRight sibling above
      | blackRight sibling above => exact .blackRight sibling above
  | cons frame inner induction =>
      cases fits with
      | redLeft sibling above => exact .redLeft sibling (induction above)
      | redRight sibling above => exact .redRight sibling (induction above)
      | blackLeft sibling above => exact .blackLeft sibling (induction above)
      | blackRight sibling above => exact .blackRight sibling (induction above)

/-- A node with one missing child gives way to the other child: nothing is
lost when it was red, one black when it was black. -/
theorem Fits.splice {path : List (Frame α)} {color own : Color}
    {height : Nat} {tree sub : ColorTree α} {label : α}
    (fits : Fits path color height) (balanced : RedBlack color height tree)
    (shape : tree = .node own .leaf label sub ∨
      tree = .node own sub label .leaf) :
    (own = .red →
      ∃ total, RedBlack .black total (Kivo.Clib.RedBlackTree.plug path sub)) ∧
    (own = .black →
      (∃ height, RedBlack .black height sub ∧
        Fits path .black (height + 1)) ∨
      (∃ left address right height, sub = .node .red left address right ∧
        RedBlack .black height (.node .black left address right) ∧
        Fits path .black height)) := by
  obtain ⟨subColor, rank, inner, lost, kept⟩ : ∃ subColor rank,
      RedBlack subColor rank sub ∧
        (own = .black → rank = 0 ∧ color = .black ∧ height = 1) ∧
        (own = .red → rank = height ∧ subColor = .black) := by
    rcases shape with rfl | rfl
    · cases balanced with
      | red onLeft onRight =>
          exact ⟨_, _, onRight, nofun, fun _ => ⟨rfl, rfl⟩⟩
      | black onLeft onRight =>
          cases onLeft
          exact ⟨_, _, onRight, fun _ => ⟨rfl, rfl, rfl⟩, nofun⟩
    · cases balanced with
      | red onLeft onRight =>
          exact ⟨_, _, onLeft, nofun, fun _ => ⟨rfl, rfl⟩⟩
      | black onLeft onRight =>
          cases onRight
          exact ⟨_, _, onLeft, fun _ => ⟨rfl, rfl, rfl⟩, nofun⟩
  constructor
  · intro red
    obtain ⟨rfl, rfl⟩ := kept red
    exact fits.toBlack.plug inner
  · intro black
    obtain ⟨rfl, rfl, rfl⟩ := lost black
    cases inner with
    | leaf => exact Or.inl ⟨0, .leaf, fits⟩
    | red onLeft onRight =>
        exact Or.inr ⟨_, _, _, 1, rfl, .black onLeft onRight, fits⟩

theorem RedBlack.mirror {color : Color} {height : Nat} {tree : ColorTree α}
    (balanced : RedBlack color height tree) :
    RedBlack color height tree.mirror := by
  induction balanced with
  | leaf => exact .leaf
  | red _ _ inductionLeft inductionRight =>
      exact .red inductionRight inductionLeft
  | black _ _ inductionLeft inductionRight =>
      exact .black inductionRight inductionLeft

theorem Fits.mirror {path : List (Frame α)} {color : Color} {height : Nat}
    (fits : Fits path color height) :
    Fits (path.map Frame.mirror) color height := by
  induction fits with
  | top => exact .top
  | redLeft sibling _ induction => exact .redRight sibling.mirror induction
  | redRight sibling _ induction => exact .redLeft sibling.mirror induction
  | blackLeft sibling _ induction => exact .blackRight sibling.mirror induction
  | blackRight sibling _ induction => exact .blackLeft sibling.mirror induction

/-! ## Colouring the root -/

/-- The tree with a root of another colour. -/
def ColorTree.paint (color : Color) : ColorTree α → ColorTree α
  | .leaf => .leaf
  | .node _ left label right => .node color left label right

@[simp]
theorem inorder_paint (color : Color) (tree : ColorTree α) :
    (tree.paint color).inorder = tree.inorder := by
  cases tree <;> rfl

theorem RedBlack.paint_black {color : Color} {height : Nat} {tree : ColorTree α}
    (balanced : RedBlack color height tree) :
    ∃ total, RedBlack .black total (tree.paint .black) := by
  cases balanced with
  | leaf => exact ⟨0, .leaf⟩
  | red onLeft onRight => exact ⟨_, .black onLeft onRight⟩
  | black onLeft onRight => exact ⟨_, .black onLeft onRight⟩

/-! ## Depth -/

/-- The number of nodes on the longest way down. -/
def ColorTree.depth : ColorTree α → Nat
  | .leaf => 0
  | .node _ left _ right => max left.depth right.depth + 1

theorem depth_le_length (tree : ColorTree α) :
    tree.depth ≤ tree.inorder.length := by
  induction tree with
  | leaf => exact Nat.le_refl _
  | node color left label right onLeft onRight =>
      simp only [ColorTree.depth, ColorTree.inorder, List.length_append,
        List.length_cons]
      omega

/-- No way down has two red nodes in a row, so it is at most twice as long as
its black nodes are many. -/
theorem RedBlack.depth_le {color : Color} {height : Nat} {tree : ColorTree α}
    (balanced : RedBlack color height tree) :
    tree.depth ≤ 2 * height + (if color = .red then 1 else 0) := by
  induction balanced with
  | leaf => exact Nat.zero_le _
  | red _ _ onLeft onRight =>
      simp only [if_neg (show Color.black ≠ .red by decide)] at onLeft onRight
      simp only [ColorTree.depth, if_true]
      omega
  | @black height left right label leftColor rightColor _ _ onLeft onRight =>
      have wide : ∀ color : Color, (if color = .red then 1 else 0) ≤ 1 := by
        intro color
        split_ifs <;> omega
      have ofLeft := wide leftColor
      have ofRight := wide rightColor
      simp only [ColorTree.depth]
      omega

/-- A tree has at least the labels of a full tree of its black height. -/
theorem RedBlack.two_pow_le {color : Color} {height : Nat}
    {tree : ColorTree α} (balanced : RedBlack color height tree) :
    2 ^ height ≤ tree.inorder.length + 1 := by
  induction balanced with
  | leaf => exact Nat.le_refl _
  | red _ _ onLeft onRight =>
      simp only [ColorTree.inorder, List.length_append, List.length_cons]
      omega
  | black _ _ onLeft onRight =>
      simp only [ColorTree.inorder, List.length_append, List.length_cons]
      rw [Nat.pow_succ]
      omega

/-- A red-black tree is as deep as twice the logarithm of its size at most. -/
theorem RedBlack.depth_le_log2 {height : Nat} {tree : ColorTree α}
    (balanced : RedBlack .black height tree) :
    tree.depth ≤ 2 * (tree.inorder.length + 1).log2 := by
  have levels := balanced.depth_le
  rw [if_neg (show Color.black ≠ .red by decide), Nat.add_zero] at levels
  have full : height ≤ (tree.inorder.length + 1).log2 :=
    (Nat.le_log2 (Nat.succ_ne_zero _)).mpr balanced.two_pow_le
  omega

end Kivo.Clib.RedBlackTree
