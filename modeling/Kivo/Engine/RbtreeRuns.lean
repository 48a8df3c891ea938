import Kivo.Engine.KeyMap
import Kivo.Engine.RbtreeOrder

/-!
# Runs of the red-black tree engine

A run is any sequence of calls on a fresh tree, with any arguments and clock
readings.  Along a run the heap is a red-black tree in the sense of its
pointers, every call answers as the map of the engine does, and the walk of
`kvs_rbtree_foreach` visits the entries that are not expired in key order.
-/

namespace Kivo.Engine.RbtreeRuns

open Kivo.Clib.Memory
open Kivo.Clib.RedBlackTree
open Kivo.Clib.SortedList
open Kivo.Clib.Simulation
open Kivo.Engine.Data
open Kivo.Engine.KeyMap
open Kivo.Engine.RbtreeEngine
open Kivo.Engine.RbtreeShape
open Kivo.Engine.RbtreeFixup
open Kivo.Engine.RbtreeOrder

/-! ## Calls -/

/-- A call of the engine. -/
def rbtreeStep (enableTtl : Bool) (T : KvsRbtree) :
    Operation → KvsRbtree × Answer
  | .set key value expireTime =>
      let result := kvsRbtreeSet T key value expireTime
      (result.1, .status result.2)
  | .mod key value expireTime =>
      let result := kvsRbtreeMod T key value expireTime
      (result.1, .status result.2)
  | .get now key =>
      let result := kvsRbtreeGet enableTtl now T key
      (result.1, .value result.2)
  | .exist now key =>
      let result := kvsRbtreeExist enableTtl now T key
      (result.1, .status result.2)
  | .del key =>
      let result := kvsRbtreeDel T key
      (result.1, .status result.2)
  | .delIfExpired key expectedExpire =>
      let result := kvsRbtreeDelIfExpired T key expectedExpire
      (result.1, .status (if result.2 then 1 else 0))

/-- A call on a valid tree is the call on the sorted list of its entries. -/
theorem rbtreeStep_ordered {T : KvsRbtree} (valid : RbValid T)
    (enableTtl : Bool) (operation : Operation) :
    RbValid (rbtreeStep enableTtl T operation).1 ∧
      ((rbtreeStep enableTtl T operation).1.entries,
        (rbtreeStep enableTtl T operation).2) =
        orderedStep enableTtl T.entries operation := by
  cases operation with
  | set key value expireTime =>
      obtain ⟨after, entries, status⟩ :=
        kvsRbtreeSet_put valid key value expireTime
      refine ⟨after, ?_⟩
      simp only [rbtreeStep, orderedStep, entries, status]
  | mod key value expireTime =>
      obtain ⟨after, entries, status⟩ :=
        kvsRbtreeSet_put valid key value expireTime
      refine ⟨after, ?_⟩
      simp only [rbtreeStep, orderedStep, kvsRbtreeMod, entries, status]
  | get now key =>
      obtain ⟨after, read⟩ := kvsRbtreeGet_lookup valid enableTtl now key
      obtain ⟨entries, found⟩ := Prod.ext_iff.mp
        (read.trans (show _ = readEntries enableTtl now T.entries key
          from rfl))
      refine ⟨after, ?_⟩
      simp only [rbtreeStep, orderedStep, ← entries, ← found]
  | exist now key =>
      obtain ⟨after, read⟩ := kvsRbtreeGet_lookup valid enableTtl now key
      obtain ⟨entries, found⟩ := Prod.ext_iff.mp
        (read.trans (show _ = readEntries enableTtl now T.entries key
          from rfl))
      refine ⟨after, ?_⟩
      simp only [rbtreeStep, orderedStep, kvsRbtreeExist, ← entries, ← found]
      cases (kvsRbtreeGet enableTtl now T key).2 <;> rfl
  | del key =>
      obtain ⟨after, entries, status⟩ := kvsRbtreeDel_erase valid key
      refine ⟨after, ?_⟩
      simp only [rbtreeStep, orderedStep, entries, status]
  | delIfExpired key expectedExpire =>
      obtain ⟨after, read⟩ :=
        kvsRbtreeDelIfExpired_erase valid key expectedExpire
      obtain ⟨entries, found⟩ := Prod.ext_iff.mp
        (read.trans (show _ = expireEntries T.entries key expectedExpire
          from rfl))
      refine ⟨after, ?_⟩
      simp only [rbtreeStep, orderedStep, ← entries, ← found]

/-! ## The tree in terms of its pointers -/

/-- The addresses reached from the root through child links. -/
inductive Reachable (T : KvsRbtree) : Nat → Prop where
  | root : Reachable T T.root
  | left {address : Nat} (above : Reachable T address)
      (real : address ≠ nil) : Reachable T (T.nodes address).left
  | right {address : Nat} (above : Reachable T address)
      (real : address ≠ nil) : Reachable T (T.nodes address).right

/-- What a node adds to the black height. -/
def blackWeight (T : KvsRbtree) (address : Nat) : Nat :=
  if (T.nodes address).color = .black then 1 else 0

/-- A way down from an address to the sentinel, with the number of black nodes
on it. -/
inductive Descent (T : KvsRbtree) : Nat → Nat → Prop where
  | sentinel : Descent T nil 0
  | left {address blacks : Nat} (real : address ≠ nil)
      (below : Descent T (T.nodes address).left blacks) :
      Descent T address (blacks + blackWeight T address)
  | right {address blacks : Nat} (real : address ≠ nil)
      (below : Descent T (T.nodes address).right blacks) :
      Descent T address (blacks + blackWeight T address)

/-- The heap is a red-black tree. -/
structure IsRedBlackTree (T : KvsRbtree) : Prop where
  tree : ∃ tree, Focus T [] tree
  rootBlack : (T.nodes T.root).color = .black
  sentinelBlack : (T.nodes nil).color = .black
  sentinelLeft : (T.nodes nil).left = nil
  sentinelRight : (T.nodes nil).right = nil
  redChildren : ∀ address, Reachable T address →
    (T.nodes address).color = .red →
      (T.nodes (T.nodes address).left).color = .black ∧
        (T.nodes (T.nodes address).right).color = .black
  blackHeight : ∃ height, Descent T T.root height ∧
    ∀ blacks, Descent T T.root blacks → blacks = height
  rootParent : T.root ≠ nil → (T.nodes T.root).parent = nil
  parents : ∀ address, Reachable T address → address ≠ nil →
    ((T.nodes address).left ≠ nil →
      (T.nodes (T.nodes address).left).parent = address) ∧
    ((T.nodes address).right ≠ nil →
      (T.nodes (T.nodes address).right).parent = address)

section Pointers

variable {T : KvsRbtree} {tree : ColorTree Nat}

/-- Every address that is reached is the root of a subtree. -/
theorem exists_subtree (focus : Focus T [] tree) {address : Nat}
    (reached : Reachable T address) :
    ∃ path sub, tree = plug path sub ∧ rootOf sub = address := by
  induction reached with
  | root => exact ⟨[], tree, rfl, focus.around.symm⟩
  | left above real induction =>
      obtain ⟨path, sub, rfl, rfl⟩ := induction
      cases sub with
      | leaf => exact absurd rfl real
      | node color left address right =>
          exact ⟨.onLeft color address right :: path, left, rfl,
            (Focus.at focus).node.left.symm⟩
  | right above real induction =>
      obtain ⟨path, sub, rfl, rfl⟩ := induction
      cases sub with
      | leaf => exact absurd rfl real
      | node color left address right =>
          exact ⟨.onRight color left address :: path, right, rfl,
            (Focus.at focus).node.right.symm⟩

/-- A way down from a node goes on from one of its children. -/
theorem descent_node {address blacks parent left right : Nat}
    {color : Color} (node : NodeIs T.nodes address color parent left right)
    (descent : Descent T address blacks) :
    ∃ rest, (Descent T left rest ∨ Descent T right rest) ∧
      blacks = rest + blackWeight T address := by
  cases descent with
  | sentinel => exact absurd rfl node.real
  | left real below =>
      rw [node.left] at below
      exact ⟨_, Or.inl below, rfl⟩
  | right real below =>
      rw [node.right] at below
      exact ⟨_, Or.inr below, rfl⟩

/-- All ways down a red-black tree pass the same number of black nodes. -/
theorem descent_height {path : List (Frame Nat)} {color : Color}
    {height blacks : Nat} (focus : Focus T path tree)
    (balanced : RedBlack color height tree)
    (descent : Descent T (rootOf tree) blacks) :
    blacks = height := by
  induction balanced generalizing path blacks with
  | leaf =>
      cases descent with
      | sentinel => rfl
      | left real below => exact absurd rfl real
      | right real below => exact absurd rfl real
  | red onLeft onRight inductionLeft inductionRight =>
      obtain ⟨rest, below, rfl⟩ := descent_node focus.node descent
      rw [blackWeight, focus.node.color, if_neg (by decide)]
      rcases below with below | below
      · exact inductionLeft focus.downLeft below
      · exact inductionRight focus.downRight below
  | black onLeft onRight inductionLeft inductionRight =>
      obtain ⟨rest, below, rfl⟩ := descent_node focus.node descent
      rw [blackWeight, focus.node.color, if_pos rfl]
      rcases below with below | below
      · rw [inductionLeft focus.downLeft below]
      · rw [inductionRight focus.downRight below]

/-- Every tree has a way down. -/
theorem exists_descent {path : List (Frame Nat)}
    (focus : Focus T path tree) :
    ∃ blacks, Descent T (rootOf tree) blacks := by
  induction tree generalizing path with
  | leaf => exact ⟨0, .sentinel⟩
  | node color left address right inductionLeft _ =>
      obtain ⟨blacks, below⟩ := inductionLeft focus.downLeft
      rw [← focus.node.left] at below
      exact ⟨_, .left focus.node.real below⟩

theorem RbOk.isRedBlackTree (ok : RbOk T tree) : IsRedBlackTree T := by
  obtain ⟨total, balanced⟩ := ok.balanced
  have sentinel := ok.focus.sentinel
  refine ⟨⟨tree, ok.focus⟩, ?_, sentinel.color, sentinel.left,
    sentinel.right, ?_, ?_, ?_, ?_⟩
  · rw [ok.root]
    exact ok.focus.rootColor balanced
  · intro address reached red
    obtain ⟨path, sub, rfl, rfl⟩ := exists_subtree ok.focus reached
    have focus : Focus T path sub := ok.focus.at
    obtain ⟨color, height, inside, _⟩ := balanced.unplug
    rw [focus.rootColor inside] at red
    subst red
    cases inside with
    | red onLeft onRight =>
        rw [rootOf_node, focus.node.left, focus.node.right]
        exact ⟨focus.downLeft.rootColor onLeft,
          focus.downRight.rootColor onRight⟩
  · obtain ⟨blacks, descent⟩ := exists_descent ok.focus
    rw [ok.root]
    refine ⟨blacks, descent, ?_⟩
    intro other below
    rw [descent_height ok.focus balanced below,
      descent_height ok.focus balanced descent]
  · intro real
    rw [ok.root] at real ⊢
    cases tree with
    | leaf => exact absurd rfl real
    | node color left address right => exact ok.focus.node.parent
  · intro address reached real
    obtain ⟨path, sub, rfl, rfl⟩ := exists_subtree ok.focus reached
    have focus : Focus T path sub := ok.focus.at
    cases sub with
    | leaf => exact absurd rfl real
    | node color left address right =>
        rw [rootOf_node, focus.node.left, focus.node.right]
        constructor
        · intro child
          cases left with
          | leaf => exact absurd rfl child
          | node color' left' address' right' =>
              exact focus.downLeft.node.parent
        · intro child
          cases right with
          | leaf => exact absurd rfl child
          | node color' left' address' right' =>
              exact focus.downRight.node.parent

end Pointers

/-! ## The walk -/

/-- The walk visits the entries that are not expired. -/
theorem rbtreeForeachNode_eq {T : KvsRbtree} (now : Int)
    (checkExpire : Bool) (fuel node : Nat) :
    rbtreeForeachNode T now checkExpire fuel node =
      unexpired checkExpire now ((foreachNode T fuel node).map
        (fun address => (T.nodes address).entry)) := by
  induction fuel generalizing node with
  | zero => rfl
  | succ fuel induction =>
      rw [rbtreeForeachNode, foreachNode]
      by_cases here : node = nil
      · rw [if_pos here, if_pos here]
        rfl
      · rw [if_neg here, if_neg here, induction, induction, List.map_append,
          List.map_cons, unexpired_append, unexpired_cons]
        dsimp only
        split_ifs <;> simp

theorem kvsRbtreeForeach_eq (enableTtl : Bool) (now : Int) (T : KvsRbtree) :
    kvsRbtreeForeach enableTtl now T = unexpired enableTtl now T.entries :=
  rbtreeForeachNode_eq now enableTtl T.next T.root

theorem RbValid.entries_sorted {T : KvsRbtree} (valid : RbValid T) :
    Sorted kvDataCompare Entry.key T.entries := by
  obtain ⟨tree, ok⟩ := valid
  rw [ok.entries_eq, Sorted, List.pairwise_map]
  exact ok.sorted

/-! ## Runs -/

/-- The tree that stands for a map. -/
def Represents (T : KvsRbtree) (map : Contents) : Prop :=
  RbValid T ∧ contents T.entries = map

theorem rbtreeStep_represents (enableTtl : Bool) {T : KvsRbtree}
    {map : Contents} (represents : Represents T map)
    (operation : Operation) :
    Represents (rbtreeStep enableTtl T operation).1
        (map.step enableTtl operation).1 ∧
      (rbtreeStep enableTtl T operation).2 =
        (map.step enableTtl operation).2 := by
  obtain ⟨valid, rfl⟩ := represents
  obtain ⟨after, result⟩ := rbtreeStep_ordered valid enableTtl operation
  obtain ⟨entries, answer⟩ := Prod.ext_iff.mp result
  have simulated := orderedStep_contents enableTtl T.entries operation
  rw [← simulated, ← answer]
  exact ⟨⟨after, by rw [← entries]⟩, rfl⟩

theorem rbtreeRun_represents (enableTtl : Bool) (operations : List Operation) :
    Represents (run (rbtreeStep enableTtl) kvsRbtreeCreate operations).1
        (run (Contents.step enableTtl) Contents.empty operations).1 ∧
      (run (rbtreeStep enableTtl) kvsRbtreeCreate operations).2 =
        (run (Contents.step enableTtl) Contents.empty operations).2 := by
  refine @run_simulation _ _ _ _ _ _ (fun _ _ => True) Represents ?_ _ _ ?_
    _ (along_of_forall (fun _ _ => trivial) _)
  · intro T map operation represents _
    exact rbtreeStep_represents enableTtl represents operation
  · exact ⟨rbValid_create, by rw [entries_create]; rfl⟩

/-- Every run keeps the heap a red-black tree. -/
theorem rbtreeRun_isRedBlackTree (enableTtl : Bool)
    (operations : List Operation) :
    IsRedBlackTree
      (run (rbtreeStep enableTtl) kvsRbtreeCreate operations).1 := by
  obtain ⟨⟨⟨tree, ok⟩, _⟩, _⟩ := rbtreeRun_represents enableTtl operations
  exact RbOk.isRedBlackTree ok

/--
Every run answers as the map does and ends in a tree with the contents of the
map, whose walk visits exactly the entries that are not expired, in strictly
increasing key order.
-/
theorem rbtreeRun_refines_map (enableTtl : Bool) (operations : List Operation) :
    (run (rbtreeStep enableTtl) kvsRbtreeCreate operations).2 =
        (run (Contents.step enableTtl) Contents.empty operations).2 ∧
      contents
          (run (rbtreeStep enableTtl) kvsRbtreeCreate operations).1.entries =
        (run (Contents.step enableTtl) Contents.empty operations).1 ∧
      ∀ now,
        (kvsRbtreeForeach enableTtl now
          (run (rbtreeStep enableTtl) kvsRbtreeCreate operations).1).Pairwise
            (fun first second =>
              kvDataCompare first.key second.key = .lt) ∧
        ∀ entry,
          entry ∈ kvsRbtreeForeach enableTtl now
              (run (rbtreeStep enableTtl) kvsRbtreeCreate operations).1 ↔
            (run (Contents.step enableTtl) Contents.empty operations).1
                entry.key = some (item entry) ∧
              ¬ Expired enableTtl now entry.expireTime := by
  obtain ⟨⟨valid, stored⟩, answers⟩ := rbtreeRun_represents enableTtl operations
  refine ⟨answers, stored, ?_⟩
  intro now
  rw [← stored, kvsRbtreeForeach_eq]
  have sorted := RbValid.entries_sorted valid
  exact ⟨List.Pairwise.filter _ sorted, fun entry =>
    mem_unexpired_contents (distinct_of_sorted sorted)⟩

end Kivo.Engine.RbtreeRuns
