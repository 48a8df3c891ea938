import Kivo.Clib.SortedList
import Kivo.Engine.RbtreeSplice

/-!
# The red-black tree as a sorted list

The nodes of a valid tree in order carry strictly increasing keys.  Searching,
setting and deleting a key are therefore operations on the sorted list of
entries that `kvs_rbtree_foreach` visits, and all of them keep the tree valid.
-/

namespace Kivo.Engine.RbtreeOrder

open Kivo.Clib.Memory
open Kivo.Clib.RedBlackTree
open Kivo.Clib.SortedList
open Kivo.Engine.Data
open Kivo.Engine.RbtreeEngine
open Kivo.Engine.RbtreeShape
open Kivo.Engine.RbtreeFixup
open Kivo.Engine.RbtreeSplice

/-! ## Valid trees -/

/-- The key at an address. -/
def keyAt (T : KvsRbtree) (address : Nat) : Bytes :=
  (T.nodes address).entry.key

/-- The heap holds a red-black search tree. -/
structure RbOk (T : KvsRbtree) (tree : ColorTree Nat) : Prop where
  focus : Focus T [] tree
  balanced : ∃ total, RedBlack .black total tree
  sorted : Sorted kvDataCompare (keyAt T) tree.inorder
  live : ∀ address ∈ tree.inorder, address < T.next
  heap : 0 < T.next

/-- The heap holds some red-black search tree. -/
def RbValid (T : KvsRbtree) : Prop :=
  ∃ tree, RbOk T tree

theorem rbOk_create : RbOk kvsRbtreeCreate .leaf := by
  refine ⟨⟨rfl, trivial, List.nodup_nil, rfl, rfl, rfl⟩, ⟨0, .leaf⟩,
    List.Pairwise.nil, ?_, Nat.zero_lt_one⟩
  intro address member
  exact absurd member List.not_mem_nil

theorem rbValid_create : RbValid kvsRbtreeCreate :=
  ⟨.leaf, rbOk_create⟩

section Valid

variable {T : KvsRbtree} {tree : ColorTree Nat}

theorem RbOk.nodup (ok : RbOk T tree) : tree.inorder.Nodup :=
  (List.nodup_append.mp ok.focus.nodup).1

theorem RbOk.length_lt (ok : RbOk T tree) :
    tree.inorder.length < T.next :=
  length_lt_of_nodup ok.nodup ok.focus.nil_notMem ok.live ok.heap

theorem RbOk.root (ok : RbOk T tree) : T.root = rootOf tree :=
  ok.focus.around

/-- Walking the tree visits its nodes in order. -/
theorem foreachNode_eq {parent fuel : Nat} (rep : Rep T.nodes parent tree)
    (enough : tree.inorder.length ≤ fuel) :
    foreachNode T fuel (rootOf tree) = tree.inorder := by
  induction tree generalizing parent fuel with
  | leaf => cases fuel <;> rfl
  | node color left address right inductionLeft inductionRight =>
      obtain ⟨node, onLeft, onRight⟩ := rep
      simp only [ColorTree.inorder, List.length_append, List.length_cons]
        at enough
      cases fuel with
      | zero => omega
      | succ fuel =>
          rw [rootOf_node, foreachNode, if_neg node.real, node.left,
            node.right, inductionLeft onLeft (by omega),
            inductionRight onRight (by omega), ColorTree.inorder]

theorem RbOk.addresses_eq (ok : RbOk T tree) :
    T.addresses = tree.inorder := by
  rw [KvsRbtree.addresses, ok.root]
  exact foreachNode_eq ok.focus.inside ok.length_lt.le

theorem RbOk.entries_eq (ok : RbOk T tree) :
    T.entries = tree.inorder.map (fun address => (T.nodes address).entry) := by
  rw [KvsRbtree.entries, ok.addresses_eq]

end Valid

@[simp]
theorem entries_create : kvsRbtreeCreate.entries = [] := by
  rw [rbOk_create.entries_eq]
  rfl

/-! ## Searching -/

section Searching

variable {T : KvsRbtree} {tree : ColorTree Nat} {key : Bytes}

/-- A sorted tree splits at its root into what lies below and above it. -/
theorem sorted_node {color : Color} {left right : ColorTree Nat}
    {address : Nat}
    (sorted : Sorted kvDataCompare (keyAt T)
      (ColorTree.node color left address right).inorder) :
    Sorted kvDataCompare (keyAt T) left.inorder ∧
      Sorted kvDataCompare (keyAt T) right.inorder ∧
      (∀ other ∈ left.inorder,
        kvDataCompare (keyAt T other) (keyAt T address) = .lt) ∧
      (∀ other ∈ right.inorder,
        kvDataCompare (keyAt T address) (keyAt T other) = .lt) := by
  obtain ⟨low, high, across⟩ := List.pairwise_append.mp sorted
  obtain ⟨ahead, high⟩ := List.pairwise_cons.mp high
  exact ⟨low, high,
    fun other member => across other member address List.mem_cons_self,
    ahead⟩

/-- The search loop finds the node with the key. -/
theorem searchLoop_eq {parent fuel : Nat} (rep : Rep T.nodes parent tree)
    (sorted : Sorted kvDataCompare (keyAt T) tree.inorder)
    (enough : tree.inorder.length ≤ fuel) :
    searchLoop T key fuel (rootOf tree) =
      (lookup kvDataCompare (keyAt T) tree.inorder key).getD nil := by
  induction tree generalizing parent fuel with
  | leaf => cases fuel <;> rfl
  | node color left address right inductionLeft inductionRight =>
      obtain ⟨node, onLeft, onRight⟩ := rep
      obtain ⟨low, high, below, above⟩ := sorted_node sorted
      simp only [ColorTree.inorder, List.length_append, List.length_cons]
        at enough
      cases fuel with
      | zero => omega
      | succ fuel =>
          rw [rootOf_node, searchLoop, if_neg node.real, node.left,
            node.right, ColorTree.inorder]
          cases order : kvDataCompare key (T.nodes address).entry.key with
          | lt =>
              dsimp only
              rw [inductionLeft onLeft low (by omega), lookup_append_left]
              intro other member
              have ahead : kvDataCompare key (keyAt T other) = .lt := by
                rcases List.mem_cons.mp member with rfl | member
                · exact order
                · exact kvDataCompare_lt_trans order (above other member)
              rw [kvDataCompare_gt_iff.mpr ahead]
              decide
          | gt =>
              dsimp only
              have behind : kvDataCompare (keyAt T address) key = .lt :=
                kvDataCompare_gt_iff.mp order
              rw [inductionRight onRight high (by omega),
                show left.inorder ++ address :: right.inorder =
                  (left.inorder ++ [address]) ++ right.inorder by simp,
                lookup_append_right]
              intro other member
              have ahead : kvDataCompare (keyAt T other) key = .lt := by
                rcases List.mem_append.mp member with member | member
                · exact kvDataCompare_lt_trans (below other member) behind
                · rw [List.mem_singleton.mp member]
                  exact behind
              rw [ahead]
              decide
          | eq =>
              dsimp only
              have same : keyAt T address = key :=
                (kvDataCompare_eq_iff.mp order).symm
              rw [lookup_append_right]
              · rw [lookup, List.find?_cons_of_pos (by simp [same])]
                rfl
              · intro other member
                have ahead := below other member
                rw [same] at ahead
                rw [ahead]
                decide

theorem rbtreeSearch_eq (ok : RbOk T tree) :
    rbtreeSearch T key =
      (lookup kvDataCompare (keyAt T) tree.inorder key).getD nil := by
  rw [rbtreeSearch, ok.root]
  exact searchLoop_eq ok.focus.inside ok.sorted ok.length_lt.le

/-- `rbtree_find_parent` finds what `rbtree_search` finds. -/
theorem findParentLoop_search (fuel node parent : Nat) (cmp : Ordering) :
    (findParentLoop T key fuel node parent cmp).1 =
      searchLoop T key fuel node := by
  induction fuel generalizing node parent cmp with
  | zero => rfl
  | succ fuel induction =>
      rw [findParentLoop, searchLoop]
      split_ifs
      · rfl
      · cases kvDataCompare key (T.nodes node).entry.key with
        | lt => exact induction _ _ _
        | gt => exact induction _ _ _
        | eq => rfl

/-- For a missing key `rbtree_find_parent` ends at the hole where the key
belongs. -/
theorem findParentLoop_landing {above fuel parent : Nat} {cmp : Ordering}
    (rep : Rep T.nodes above tree)
    (sorted : Sorted kvDataCompare (keyAt T) tree.inorder)
    (enough : tree.inorder.length ≤ fuel)
    (missing : ∀ address ∈ tree.inorder, keyAt T address ≠ key) :
    ∃ path, tree = plug path .leaf ∧
      Around kvDataCompare (keyAt T) key (labelsBefore path) []
        (labelsAfter path) ∧
      (findParentLoop T key fuel (rootOf tree) parent cmp).2 =
        landing parent cmp path := by
  induction tree generalizing above fuel parent cmp with
  | leaf =>
      refine ⟨[], rfl, ⟨by simp [labelsBefore], by simp,
        by simp [labelsAfter]⟩, ?_⟩
      cases fuel <;> rfl
  | node color left address right inductionLeft inductionRight =>
      obtain ⟨node, onLeft, onRight⟩ := rep
      obtain ⟨low, high, below, ahead⟩ := sorted_node sorted
      simp only [ColorTree.inorder, List.length_append, List.length_cons]
        at enough
      cases fuel with
      | zero => omega
      | succ fuel =>
          rw [rootOf_node, findParentLoop, if_neg node.real, node.left,
            node.right]
          cases order : kvDataCompare key (T.nodes address).entry.key with
          | lt =>
              obtain ⟨path, shape, around, lands⟩ :=
                @inductionLeft address fuel address .lt onLeft low (by omega)
                  (fun other member => missing other
                    (by simp [ColorTree.inorder, member]))
              refine ⟨path ++ [.onLeft color address right], ?_, ?_, ?_⟩
              · rw [plug_append, ← shape]
                rfl
              · rw [labelsBefore_append, labelsAfter_append]
                refine ⟨?_, by simp, ?_⟩
                · intro other member
                  exact around.below other (by simpa [labelsBefore] using
                    member)
                · intro other member
                  rw [kvDataCompare_gt_iff]
                  rcases List.mem_append.mp member with member | member
                  · exact kvDataCompare_gt_iff.mp (around.above other member)
                  · simp only [labelsAfter, List.append_nil,
                      List.mem_cons] at member
                    rcases member with rfl | member
                    · exact order
                    · exact kvDataCompare_lt_trans order
                        (ahead other member)
              · dsimp only
                rw [lands]
                cases path with
                | nil => rfl
                | cons frame path => cases frame <;> rfl
          | gt =>
              have behind : kvDataCompare (keyAt T address) key = .lt :=
                kvDataCompare_gt_iff.mp order
              obtain ⟨path, shape, around, lands⟩ :=
                @inductionRight address fuel address .gt onRight high
                  (by omega)
                  (fun other member => missing other
                    (by simp [ColorTree.inorder, member]))
              refine ⟨path ++ [.onRight color left address], ?_, ?_, ?_⟩
              · rw [plug_append, ← shape]
                rfl
              · rw [labelsBefore_append, labelsAfter_append]
                refine ⟨?_, by simp, ?_⟩
                · intro other member
                  simp only [labelsBefore, List.nil_append, List.mem_append,
                    List.mem_singleton] at member
                  rcases member with (member | rfl) | member
                  · exact kvDataCompare_lt_trans (below other member) behind
                  · exact behind
                  · exact around.below other member
                · intro other member
                  exact around.above other (by simpa [labelsAfter] using
                    member)
              · dsimp only
                rw [lands]
                cases path with
                | nil => rfl
                | cons frame path => cases frame <;> rfl
          | eq =>
              refine absurd (kvDataCompare_eq_iff.mp order).symm ?_
              exact missing address (by simp [ColorTree.inorder])

end Searching

/-! ## The operations on the sorted list of entries -/

section Operations

variable {T : KvsRbtree}

/-- Entries that stay where they are keep the keys. -/
theorem keyAt_congr {T' : KvsRbtree} (same : SameEntries T T') :
    keyAt T' = keyAt T := by
  funext address
  rw [keyAt, keyAt, same.entry]

/-- The search finds the entry of the key. -/
theorem rbtreeSearch_lookup (valid : RbValid T) (key : Bytes) :
    (if rbtreeSearch T key = nil then none
      else some (T.nodes (rbtreeSearch T key)).entry) =
      lookup kvDataCompare Entry.key T.entries key := by
  obtain ⟨tree, ok⟩ := valid
  have keys : (fun address => ((T.nodes address).entry).key) = keyAt T := rfl
  rw [rbtreeSearch_eq ok, ok.entries_eq, lookup_map, keys]
  cases found : lookup kvDataCompare (keyAt T) tree.inorder key with
  | none => rfl
  | some address =>
      have member := List.mem_of_find?_eq_some found
      have real : address ≠ nil := by
        rintro rfl
        exact ok.focus.nil_notMem member
      simp [real]

/-- A key that was found splits the tree at its node. -/
theorem rbtreeSearch_split (valid : RbValid T) {key : Bytes}
    (found : rbtreeSearch T key ≠ nil) :
    ∃ path color left right,
      RbOk T (plug path
        (.node color left (rbtreeSearch T key) right)) ∧
      Around kvDataCompare (keyAt T) key (labelsBefore path ++ left.inorder)
        [rbtreeSearch T key] (right.inorder ++ labelsAfter path) := by
  obtain ⟨tree, ok⟩ := valid
  have search := @rbtreeSearch_eq _ _ key ok
  cases hit : lookup kvDataCompare (keyAt T) tree.inorder key with
  | none =>
      rw [hit] at search
      exact absurd search found
  | some address =>
      rw [hit, Option.getD_some] at search
      rw [search]
      have member := List.mem_of_find?_eq_some hit
      have same : keyAt T address = key := by
        have test := List.find?_some hit
        simpa using test
      obtain ⟨path, color, left, right, rfl⟩ := exists_plug_of_mem member
      refine ⟨path, color, left, right, ok, ?_⟩
      rw [← same]
      apply Sorted.around
      have sorted := ok.sorted
      rw [inorder_plug, ColorTree.inorder] at sorted
      simpa using sorted

/-- The entries of a tree in the parts around a node. -/
theorem RbOk.entries_node {path : List (Frame Nat)} {color : Color}
    {left right : ColorTree Nat} {address : Nat}
    (ok : RbOk T (plug path (.node color left address right))) :
    T.entries =
      (labelsBefore path ++ left.inorder).map
          (fun address => (T.nodes address).entry) ++
        ([address].map (fun address => (T.nodes address).entry) ++
          (right.inorder ++ labelsAfter path).map
            (fun address => (T.nodes address).entry)) := by
  rw [ok.entries_eq, inorder_plug, ColorTree.inorder]
  simp

/-- The parts around a key, as entries. -/
theorem around_entries {key : Bytes} {below middle above : List Nat}
    (around : Around kvDataCompare (keyAt T) key below middle above) :
    Around kvDataCompare Entry.key key
      (below.map (fun address => (T.nodes address).entry))
      (middle.map (fun address => (T.nodes address).entry))
      (above.map (fun address => (T.nodes address).entry)) :=
  around.map (fun address => (T.nodes address).entry) (fun _ => rfl)

/-- Deleting what the search found erases the key. -/
theorem rbtreeDelete_erase (valid : RbValid T) {key : Bytes}
    (found : rbtreeSearch T key ≠ nil) :
    RbValid (rbtreeDelete T (rbtreeSearch T key)) ∧
      (rbtreeDelete T (rbtreeSearch T key)).entries =
        erase kvDataCompare Entry.key T.entries key := by
  obtain ⟨path, color, left, right, ok, around⟩ :=
    rbtreeSearch_split valid found
  generalize rbtreeSearch T key = z at *
  obtain ⟨total, balanced⟩ := ok.balanced
  obtain ⟨tree', focus', same, order, total'⟩ :=
    rbtreeDelete_focus ok.focus.at balanced ok.length_lt.le
  have parts : tree'.inorder =
      (labelsBefore path ++ left.inorder) ++
        (right.inorder ++ labelsAfter path) := by
    rw [order]
    simp
  have inside : tree'.inorder.Sublist
      (plug path (.node color left z right)).inorder := by
    rw [parts, inorder_plug, ColorTree.inorder]
    simp
  have ok' : RbOk (rbtreeDelete T z) tree' := by
    refine ⟨focus', total', ?_, ?_, ?_⟩
    · rw [keyAt_congr same]
      exact ok.sorted.sublist inside
    · intro address member
      rw [same.next]
      exact ok.live address (inside.subset member)
    · rw [same.next]
      exact ok.heap
  refine ⟨⟨tree', ok'⟩, ?_⟩
  rw [ok.entries_node, (around_entries around).erase_eq, ok'.entries_eq,
    parts, List.map_append]
  simp only [same.entry]

/-- `kvs_rbtree_del` erases the key. -/
theorem kvsRbtreeDel_erase (valid : RbValid T) (key : Bytes) :
    RbValid (kvsRbtreeDel T key).1 ∧
      (kvsRbtreeDel T key).1.entries =
        erase kvDataCompare Entry.key T.entries key ∧
      (kvsRbtreeDel T key).2 =
        if (lookup kvDataCompare Entry.key T.entries key).isSome then 0
        else 1 := by
  have search := rbtreeSearch_lookup valid key
  rw [kvsRbtreeDel, ← search]
  by_cases missing : rbtreeSearch T key = nil
  · rw [if_pos missing] at search
    simp only [missing, if_true]
    refine ⟨valid, ?_, rfl⟩
    rw [erase_of_lookup_none search.symm]
  · simp only [missing, if_false]
    obtain ⟨after, entries⟩ := rbtreeDelete_erase valid missing
    exact ⟨after, entries, rfl⟩

/-- Inserting where the search of a missing key ended sets the key. -/
theorem rbtreeInsertAt_put (valid : RbValid T) {entry : Entry}
    (missing : (rbtreeFindParent T entry.key).1 = nil) :
    RbValid (rbtreeInsertAt T (rbtreeFindParent T entry.key).2.1
        (rbtreeFindParent T entry.key).2.2 entry) ∧
      (rbtreeInsertAt T (rbtreeFindParent T entry.key).2.1
        (rbtreeFindParent T entry.key).2.2 entry).entries =
        put kvDataCompare Entry.key T.entries entry := by
  obtain ⟨tree, ok⟩ := valid
  have absent : ∀ address ∈ tree.inorder, keyAt T address ≠ entry.key := by
    have search : rbtreeSearch T entry.key = nil := by
      rw [← missing, rbtreeFindParent, findParentLoop_search]
      rfl
    rw [rbtreeSearch_eq ok] at search
    intro address member same
    cases hit : lookup kvDataCompare (keyAt T) tree.inorder entry.key with
    | none =>
        have different := List.find?_eq_none.mp hit address member
        simp [same] at different
    | some other =>
        rw [hit, Option.getD_some] at search
        have inside := List.mem_of_find?_eq_some hit
        rw [search] at inside
        exact ok.focus.nil_notMem inside
  obtain ⟨path, rfl, around, lands⟩ :=
    @findParentLoop_landing T tree entry.key nil T.next nil .eq
      ok.focus.inside ok.sorted ok.length_lt.le absent
  rw [rbtreeFindParent, ok.root, lands]
  have labels : (plug path .leaf).inorder =
      labelsBefore path ++ ([] ++ labelsAfter path) := by
    rw [inorder_plug, ColorTree.inorder]
  have focus : Focus T path .leaf := ok.focus.at
  have inside : ∀ address ∈ labelsAround path, address < T.next := by
    intro address member
    refine ok.live address ((perm_plug path .leaf).mem_iff.mpr ?_)
    exact List.mem_append.mpr (Or.inr member)
  have short : path.length ≤ T.next := by
    have length := (perm_plug path .leaf).length_eq
    have levels := length_le_labelsAround path
    have bound := ok.length_lt
    rw [List.length_append] at length
    omega
  obtain ⟨total, balanced⟩ := ok.balanced
  obtain ⟨tree', focus', same, order, total'⟩ :=
    rbtreeInsertAt_focus focus balanced inside ok.heap short entry
  generalize rbtreeInsertAt T (landing nil .eq path).1
    (landing nil .eq path).2 entry = after at *
  have next : after.next = T.next + 1 := same.next
  have fresh : (after.nodes T.next).entry = entry := by
    rw [same.entry, allocate]
    simp
  have kept : ∀ address ∈ labelsBefore path ++ labelsAfter path,
      (after.nodes address).entry = (T.nodes address).entry := by
    intro address member
    rw [same.entry, allocate_nodes]
    rintro rfl
    refine Nat.lt_irrefl _ (ok.live T.next ?_)
    rw [labels]
    simpa using member
  have around' : Around kvDataCompare (keyAt after) (keyAt after T.next)
      (labelsBefore path) [] (labelsAfter path) := by
    rw [keyAt, fresh]
    refine ⟨?_, by simp, ?_⟩
    · intro address member
      rw [keyAt, kept address (List.mem_append.mpr (Or.inl member))]
      exact around.below address member
    · intro address member
      rw [keyAt, kept address (List.mem_append.mpr (Or.inr member))]
      exact around.above address member
  have ok' : RbOk after tree' := by
    refine ⟨focus', total', ?_, ?_, by omega⟩
    · rw [order]
      refine around'.sorted_put (List.Pairwise.imp_of_mem ?_
        (labels ▸ ok.sorted))
      intro left right inLeft inRight below
      rw [List.nil_append] at inLeft inRight
      rw [keyAt, keyAt, kept left inLeft, kept right inRight]
      exact below
    · intro address member
      rw [order, List.mem_append, List.mem_cons] at member
      rw [next]
      rcases member with member | rfl | member
      · exact Nat.lt_succ_of_lt (ok.live address (by simp [labels, member]))
      · exact Nat.lt_succ_self _
      · exact Nat.lt_succ_of_lt (ok.live address (by simp [labels, member]))
  refine ⟨⟨tree', ok'⟩, ?_⟩
  rw [ok'.entries_eq, order, ok.entries_eq, labels, List.map_append,
    List.map_append, List.map_append, (around_entries around).put_eq,
    List.map_cons, fresh]
  congr 1
  · apply List.map_congr_left
    intro address member
    exact kept address (List.mem_append.mpr (Or.inl member))
  · congr 1
    apply List.map_congr_left
    intro address member
    exact kept address (List.mem_append.mpr (Or.inr member))

/-- The heap with another value and time in one entry. -/
def overwrite (T : KvsRbtree) (address : Nat) (entry : Entry) : KvsRbtree :=
  T.update address (fun node =>
    { node with
      entry :=
        { node.entry with
          value := entry.value
          expireTime := entry.expireTime } })

theorem overwrite_links (address other : Nat) (entry : Entry) :
    (overwrite T address entry).nodes other =
      { T.nodes other with
        entry := ((overwrite T address entry).nodes other).entry } := by
  rw [overwrite, KvsRbtree.update]
  dsimp only
  split_ifs <;> rfl

/-- The tree does not depend on the entries. -/
theorem Rep.relabel {nodes nodes' : Nat → RbNode} {parent : Nat}
    {tree : ColorTree Nat} (rep : Rep nodes parent tree)
    (links : ∀ address, nodes' address =
      { nodes address with entry := (nodes' address).entry }) :
    Rep nodes' parent tree := by
  induction tree generalizing parent with
  | leaf => trivial
  | node color left address right inductionLeft inductionRight =>
      obtain ⟨node, onLeft, onRight⟩ := rep
      refine ⟨⟨node.real, ?_, ?_, ?_, ?_⟩, inductionLeft onLeft,
        inductionRight onRight⟩
      · rw [links, node.color]
      · rw [links, node.parent]
      · rw [links, node.left]
      · rw [links, node.right]

/-- Overwriting the value of a found key in place sets the key. -/
theorem overwrite_put (valid : RbValid T) {entry : Entry}
    (found : rbtreeSearch T entry.key ≠ nil) :
    RbValid (overwrite T (rbtreeSearch T entry.key) entry) ∧
      (overwrite T (rbtreeSearch T entry.key) entry).entries =
        put kvDataCompare Entry.key T.entries entry := by
  obtain ⟨path, color, left, right, ok, around⟩ :=
    rbtreeSearch_split valid found
  generalize rbtreeSearch T entry.key = z at *
  have same : (T.nodes z).entry.key = entry.key :=
    kvDataCompare_eq_iff.mp (around.middle z List.mem_cons_self)
  have links := fun other => @overwrite_links T z other entry
  have changed : ∀ address,
      ((overwrite T z entry).nodes address).entry =
        if address = z then entry else (T.nodes address).entry := by
    intro address
    rw [overwrite, KvsRbtree.update]
    dsimp only
    split_ifs with here
    · rw [here, same]
    · rfl
  have root : (overwrite T z entry).root = T.root := rfl
  have next : (overwrite T z entry).next = T.next := rfl
  generalize overwrite T z entry = after at *
  have keys : keyAt after = keyAt T := by
    funext address
    rw [keyAt, keyAt, changed]
    split_ifs with here
    · rw [here, same]
    · rfl
  have ok' : RbOk after (plug path (.node color left z right)) := by
    refine ⟨⟨root.trans ok.focus.around, ?_, ok.focus.nodup, ?_⟩,
      ok.balanced, ?_, ?_, ?_⟩
    · exact Rep.relabel ok.focus.inside links
    · have sentinel := links nil
      refine ⟨?_, ?_, ?_⟩
      · rw [sentinel, ok.focus.sentinel.color]
      · rw [sentinel, ok.focus.sentinel.left]
      · rw [sentinel, ok.focus.sentinel.right]
    · rw [keys]
      exact ok.sorted
    · rw [next]
      exact ok.live
    · rw [next]
      exact ok.heap
  have apart : z ∉ labelsBefore path ++ left.inorder ∧
      z ∉ right.inorder ++ labelsAfter path := by
    have nodup := ok.nodup
    rw [inorder_plug, ColorTree.inorder] at nodup
    have parts : ((labelsBefore path ++ left.inorder) ++
        z :: (right.inorder ++ labelsAfter path)).Nodup := by
      simpa using nodup
    obtain ⟨_, rest, across⟩ := List.nodup_append.mp parts
    exact ⟨fun member => across z member z List.mem_cons_self rfl,
      (List.nodup_cons.mp rest).1⟩
  refine ⟨⟨_, ok'⟩, ?_⟩
  rw [ok'.entries_node, ok.entries_node, (around_entries around).put_eq]
  simp only [changed]
  rw [List.map_cons, if_pos rfl, List.map_nil, List.singleton_append]
  congr 1
  · apply List.map_congr_left
    intro address member
    rw [if_neg]
    rintro rfl
    exact apart.1 member
  · congr 1
    apply List.map_congr_left
    intro address member
    rw [if_neg]
    rintro rfl
    exact apart.2 member

theorem rbtreeFindParent_search (key : Bytes) :
    (rbtreeFindParent T key).1 = rbtreeSearch T key :=
  findParentLoop_search _ _ _ _

/-- `kvs_rbtree_set` sets the key. -/
theorem kvsRbtreeSet_put (valid : RbValid T) (key value : Bytes)
    (expireTime : Int) :
    RbValid (kvsRbtreeSet T key value expireTime).1 ∧
      (kvsRbtreeSet T key value expireTime).1.entries =
        put kvDataCompare Entry.key T.entries
          { key := key, value := value, expireTime := expireTime } ∧
      (kvsRbtreeSet T key value expireTime).2 = 0 := by
  rw [kvsRbtreeSet]
  by_cases found : (rbtreeFindParent T key).1 ≠ nil
  · rw [if_pos found, rbtreeFindParent_search]
    rw [rbtreeFindParent_search] at found
    by_cases fits : value.length ≤
        (T.nodes (rbtreeSearch T key)).entry.value.length
    · rw [if_pos fits]
      obtain ⟨after, entries⟩ := @overwrite_put T valid
        { key := key, value := value, expireTime := expireTime } found
      exact ⟨after, entries, rfl⟩
    · rw [if_neg fits]
      obtain ⟨removed, erased⟩ := rbtreeDelete_erase valid found
      have missing : (rbtreeFindParent
          (rbtreeDelete T (rbtreeSearch T key)) key).1 = nil := by
        have search := rbtreeSearch_lookup removed key
        rw [erased, lookup_erase] at search
        rw [rbtreeFindParent_search]
        by_contra still
        rw [if_neg still] at search
        exact absurd search (by simp)
      obtain ⟨after, entries⟩ := @rbtreeInsertAt_put _ removed
        { key := key, value := value, expireTime := expireTime } missing
      dsimp only
      rw [if_neg (not_not.mpr missing)]
      refine ⟨after, ?_, rfl⟩
      rw [entries, erased]
      exact put_erase T.entries _
  · rw [if_neg found]
    obtain ⟨after, entries⟩ := @rbtreeInsertAt_put T valid
      { key := key, value := value, expireTime := expireTime }
      (not_not.mp found)
    exact ⟨after, entries, rfl⟩

/-- `kvs_rbtree_get` reads the entry of the key, or erases it when its time
has passed. -/
theorem kvsRbtreeGet_lookup (valid : RbValid T) (enableTtl : Bool)
    (now : Int) (key : Bytes) :
    RbValid (kvsRbtreeGet enableTtl now T key).1 ∧
      ((kvsRbtreeGet enableTtl now T key).1.entries,
        (kvsRbtreeGet enableTtl now T key).2) =
        match lookup kvDataCompare Entry.key T.entries key with
        | none => (T.entries, none)
        | some entry =>
            if enableTtl ∧ 0 < entry.expireTime ∧ entry.expireTime < now then
              (erase kvDataCompare Entry.key T.entries key, none)
            else (T.entries, some entry.value) := by
  rw [kvsRbtreeGet, ← rbtreeSearch_lookup valid key]
  by_cases found : rbtreeSearch T key = nil
  · simp only [found, if_true]
    exact ⟨valid, trivial⟩
  · simp only [found, if_false]
    split_ifs with late
    · obtain ⟨after, entries, _⟩ := kvsRbtreeDel_erase valid key
      exact ⟨after, by rw [entries]⟩
    · exact ⟨valid, rfl⟩

/-- `kvs_rbtree_del_if_expired` erases the key when its entry carries the
expected time. -/
theorem kvsRbtreeDelIfExpired_erase (valid : RbValid T) (key : Bytes)
    (expectedExpire : Int) :
    RbValid (kvsRbtreeDelIfExpired T key expectedExpire).1 ∧
      ((kvsRbtreeDelIfExpired T key expectedExpire).1.entries,
        (kvsRbtreeDelIfExpired T key expectedExpire).2) =
        match lookup kvDataCompare Entry.key T.entries key with
        | none => (T.entries, false)
        | some entry =>
            if entry.expireTime = expectedExpire then
              (erase kvDataCompare Entry.key T.entries key, true)
            else (T.entries, false) := by
  rw [kvsRbtreeDelIfExpired, ← rbtreeSearch_lookup valid key]
  by_cases found : rbtreeSearch T key = nil
  · simp only [found, if_true]
    exact ⟨valid, trivial⟩
  · simp only [found, if_false]
    obtain ⟨after, entries, _⟩ := kvsRbtreeDel_erase valid key
    by_cases expired :
        (T.nodes (rbtreeSearch T key)).entry.expireTime = expectedExpire
    · rw [if_neg (not_not.mpr expired), if_pos expired]
      exact ⟨after, by rw [entries]⟩
    · rw [if_pos expired, if_neg expired]
      exact ⟨valid, rfl⟩

end Operations

end Kivo.Engine.RbtreeOrder
