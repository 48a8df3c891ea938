import Kivo.Engine.RbtreeRuns

/-!
# What a search of the red-black tree costs

The loops of `kvs_rbtree.c` go on until they meet the sentinel, and
`rbtree_foreach_node` calls itself for both children of every node.  Here the
two searches are given a number of comparisons that they may make, and fail when
they need another one; the walk is given a depth.  In every tree that a run of
the engine leaves behind, twice the logarithm of the number of entries is enough
for all of them.
-/

namespace Kivo.Engine.RbtreeCost

open Kivo.Clib.Memory
open Kivo.Clib.RedBlackTree
open Kivo.Clib.Simulation
open Kivo.Engine.Data
open Kivo.Engine.KeyMap
open Kivo.Engine.RbtreeEngine
open Kivo.Engine.RbtreeShape
open Kivo.Engine.RbtreeOrder
open Kivo.Engine.RbtreeRuns

/-! ## Counted searches -/

/-- `rbtree_search` with at most so many comparisons. -/
def searchWithin (T : KvsRbtree) (key : Bytes) : Nat → Nat → Option Nat
  | 0, node => if node = nil then some nil else none
  | comparisons + 1, node =>
      if node = nil then some nil
      else
        match kvDataCompare key (T.nodes node).entry.key with
        | .lt => searchWithin T key comparisons (T.nodes node).left
        | .gt => searchWithin T key comparisons (T.nodes node).right
        | .eq => some node

/-- `rbtree_find_parent` with at most so many comparisons. -/
def findParentWithin (T : KvsRbtree) (key : Bytes) :
    Nat → Nat → Nat → Ordering → Option (Nat × Nat × Ordering)
  | 0, x, parent, cmp => if x = nil then some (nil, parent, cmp) else none
  | comparisons + 1, x, parent, cmp =>
      if x = nil then some (nil, parent, cmp)
      else
        match kvDataCompare key (T.nodes x).entry.key with
        | .lt => findParentWithin T key comparisons (T.nodes x).left x .lt
        | .gt => findParentWithin T key comparisons (T.nodes x).right x .gt
        | .eq => some (x, x, .eq)

/-! ## The depth is enough -/

section Depth

variable {T : KvsRbtree} {tree : ColorTree Nat} {key : Bytes}
  {parent fuel : Nat}

/-- A search ends within the depth of its tree. -/
theorem searchWithin_eq {comparisons : Nat} (rep : Rep T.nodes parent tree)
    (deep : tree.depth ≤ comparisons) (enough : tree.depth ≤ fuel) :
    searchWithin T key comparisons (rootOf tree) =
      some (searchLoop T key fuel (rootOf tree)) := by
  induction tree generalizing parent comparisons fuel with
  | leaf => cases comparisons <;> cases fuel <;> rfl
  | node color left address right inductionLeft inductionRight =>
      obtain ⟨node, onLeft, onRight⟩ := rep
      rw [ColorTree.depth] at deep enough
      cases comparisons with
      | zero => omega
      | succ comparisons =>
          cases fuel with
          | zero => omega
          | succ fuel =>
              rw [rootOf_node, searchWithin, searchLoop, if_neg node.real,
                if_neg node.real, node.left, node.right]
              cases kvDataCompare key (T.nodes address).entry.key with
              | lt => exact inductionLeft onLeft (by omega) (by omega)
              | gt => exact inductionRight onRight (by omega) (by omega)
              | eq => rfl

/-- So does the search for a parent. -/
theorem findParentWithin_eq {comparisons above : Nat} {cmp : Ordering}
    (rep : Rep T.nodes parent tree) (deep : tree.depth ≤ comparisons)
    (enough : tree.depth ≤ fuel) :
    findParentWithin T key comparisons (rootOf tree) above cmp =
      some (findParentLoop T key fuel (rootOf tree) above cmp) := by
  induction tree generalizing parent comparisons above cmp fuel with
  | leaf => cases comparisons <;> cases fuel <;> rfl
  | node color left address right inductionLeft inductionRight =>
      obtain ⟨node, onLeft, onRight⟩ := rep
      rw [ColorTree.depth] at deep enough
      cases comparisons with
      | zero => omega
      | succ comparisons =>
          cases fuel with
          | zero => omega
          | succ fuel =>
              rw [rootOf_node, findParentWithin, findParentLoop,
                if_neg node.real, if_neg node.real, node.left, node.right]
              cases kvDataCompare key (T.nodes address).entry.key with
              | lt => exact inductionLeft onLeft (by omega) (by omega)
              | gt => exact inductionRight onRight (by omega) (by omega)
              | eq => rfl

/-- The walk needs no more calls on top of each other than the tree is
deep. -/
theorem foreachNode_depth {now : Int} {checkExpire : Bool} {calls : Nat}
    (rep : Rep T.nodes parent tree) (deep : tree.depth ≤ calls)
    (enough : tree.depth ≤ fuel) :
    rbtreeForeachNode T now checkExpire calls (rootOf tree) =
      rbtreeForeachNode T now checkExpire fuel (rootOf tree) := by
  induction tree generalizing parent calls fuel with
  | leaf => cases calls <;> cases fuel <;> rfl
  | node color left address right inductionLeft inductionRight =>
      obtain ⟨node, onLeft, onRight⟩ := rep
      rw [ColorTree.depth] at deep enough
      cases calls with
      | zero => omega
      | succ calls =>
          cases fuel with
          | zero => omega
          | succ fuel =>
              rw [rootOf_node, rbtreeForeachNode, rbtreeForeachNode,
                if_neg node.real, if_neg node.real, node.left, node.right,
                inductionLeft onLeft (by omega : _ ≤ calls)
                  (by omega : _ ≤ fuel),
                inductionRight onRight (by omega : _ ≤ calls)
                  (by omega : _ ≤ fuel)]

/-- A valid tree is as deep as twice the logarithm of its entries. -/
theorem RbOk.depth_le (ok : RbOk T tree) :
    tree.depth ≤ 2 * (T.entries.length + 1).log2 := by
  obtain ⟨total, balanced⟩ := ok.balanced
  rw [ok.entries_eq, List.length_map]
  exact balanced.depth_le_log2

theorem RbOk.depth_le_next (ok : RbOk T tree) : tree.depth ≤ T.next :=
  (depth_le_length tree).trans ok.length_lt.le

end Depth

/--
After every run of the engine, with `n` entries in the tree, a search and a
search for a parent end after at most `2 * log2 (n + 1)` comparisons, whatever
the key, and the walk over all entries is no more than `2 * log2 (n + 1)` calls
deep.
-/
theorem rbtreeRun_logarithmic (enableTtl : Bool)
    (operations : List Operation) :
    let T := (run (rbtreeStep enableTtl) kvsRbtreeCreate operations).1
    let bound := 2 * (T.entries.length + 1).log2
    (∀ key, searchWithin T key bound T.root = some (rbtreeSearch T key)) ∧
      (∀ key, findParentWithin T key bound T.root nil .eq =
        some (rbtreeFindParent T key)) ∧
      ∀ now checkExpire, rbtreeForeachNode T now checkExpire bound T.root =
        kvsRbtreeForeach checkExpire now T := by
  intro T bound
  obtain ⟨⟨⟨tree, ok⟩, -⟩, -⟩ := rbtreeRun_represents enableTtl operations
  have deep : tree.depth ≤ bound := RbOk.depth_le ok
  have enough := RbOk.depth_le_next ok
  have inside := ok.focus.inside
  rw [show T.root = rootOf tree from ok.root]
  refine ⟨fun key => ?_, fun key => ?_, fun now checkExpire => ?_⟩
  · rw [rbtreeSearch, ok.root]
    exact searchWithin_eq inside deep enough
  · rw [rbtreeFindParent, ok.root]
    exact findParentWithin_eq inside deep enough
  · rw [kvsRbtreeForeach, ok.root]
    exact foreachNode_depth inside deep enough

end Kivo.Engine.RbtreeCost
