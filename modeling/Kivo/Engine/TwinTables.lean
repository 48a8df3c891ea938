import Kivo.Engine.Maps

/-!
# Tables with the same values

Two sets of tables are twins when their commands cannot tell them apart as
long as nothing expires: the arrays are equal, and every key of every other
table holds the same value on both sides.  How the other tables came about
does not matter: their trees and lists may have other shapes, a hash table may
have grown more, and an entry may carry another time.

Calls that set the same values and delete the same keys keep twins twins.
-/

namespace Kivo.Engine.TwinTables

open Kivo.Clib.Memory
open Kivo.Engine.Data
open Kivo.Engine.KeyMap
open Kivo.Engine.ArrayEngine
open Kivo.Engine.HashEngine
open Kivo.Engine.HashTable (HashOk nodes slotLimit)
open Kivo.Engine.SkipEngine
open Kivo.Engine.SkipOrder
open Kivo.Engine.SkipRuns (Level)
open Kivo.Engine.Store
open Kivo.Engine.Maps

/-! ## Maps with the same values -/

/-- Every key holds the same value, whatever its time is. -/
def SameValued (left right : Contents) : Prop :=
  ∀ key, (left key).map Item.value = (right key).map Item.value

section SameValued

variable {left right : Contents} (same : SameValued left right)

include same

theorem SameValued.none_iff (key : Bytes) :
    left key = none ↔ right key = none := by
  rw [← Option.map_eq_none_iff, same key, Option.map_eq_none_iff]

theorem SameValued.size_eq : left.size = right.size := by
  have keys : { key | left key ≠ none } = { key | right key ≠ none } := by
    ext key
    exact not_congr (same.none_iff key)
  rw [Contents.size, Contents.size, keys]

/-- The same value is stored at two times. -/
theorem SameValued.set (key value : Bytes) (time other : Int) :
    SameValued (left.set key { value := value, expireTime := time })
      (right.set key { value := value, expireTime := other }) := by
  intro wanted
  rw [Contents.set, Contents.set]
  split_ifs
  · rfl
  · exact same wanted

theorem SameValued.erase (key : Bytes) :
    SameValued (left.erase key) (right.erase key) := by
  intro wanted
  rw [Contents.erase, Contents.erase]
  split_ifs
  · rfl
  · exact same wanted

end SameValued

/-- What an addition stores does not depend on the time that was stored. -/
theorem appendId_value {old other : Option Item}
    (same : old.map Item.value = other.map Item.value) (id : Bytes) :
    (appendId old id).map Item.value = (appendId other id).map Item.value := by
  rw [appendId, appendId, same]
  split_ifs
  · rfl
  · exact same
  · rfl

/-! ## Calls at two times -/

/-- The same call, made at two times. -/
inductive Paired : Operation → Operation → Prop where
  | set (key value : Bytes) (time other : Int) :
      Paired (.set key value time) (.set key value other)
  | mod (key value : Bytes) (time other : Int) :
      Paired (.mod key value time) (.mod key value other)
  | del (key : Bytes) :
      Paired (.del key) (.del key)

/-- Views that the commands cannot tell apart. -/
structure SameView (left right : View) : Prop where
  values : SameValued left.map right.map
  blanks : left.blanks = right.blanks

theorem SameView.noRoom_iff {left right : View} (same : SameView left right)
    (key : Bytes) (table : Table) :
    left.NoRoom key table ↔ right.NoRoom key table := by
  cases table with
  | array =>
      rw [View.NoRoom, View.NoRoom, same.values.none_iff, same.blanks,
        same.values.size_eq]
  | rbtree => rfl
  | hash name => rw [View.NoRoom, View.NoRoom, same.values.size_eq]
  | skip => rfl

/-- The call sets the same key on both sides or on neither. -/
theorem Paired.sets_iff {operation other : Operation}
    (paired : Paired operation other) :
    (Operation.Sets operation ↔ Operation.Sets other) ∧
      operation.key = other.key := by
  cases paired <;> exact ⟨Iff.rfl, rfl⟩

theorem Paired.step {left right : Contents} (same : SameValued left right)
    {operation other : Operation} (paired : Paired operation other) :
    SameValued (left.step false operation).1 (right.step false other).1 := by
  cases paired with
  | set key value time other => exact same.set key value time other
  | mod key value time other => exact same.set key value time other
  | del key => exact same.erase key

/-- Paired calls on one table. -/
theorem SameView.step {left right : View} (same : SameView left right)
    {operation other : Operation} (paired : Paired operation other)
    (table : Table) :
    SameView (left.step table false operation).1
      (right.step table false other).1 := by
  obtain ⟨sets, key⟩ := paired.sets_iff
  have refused : Operation.Sets operation ∧
        left.NoRoom operation.key table ↔
      Operation.Sets other ∧ right.NoRoom other.key table := by
    rw [key]
    exact and_congr sets (same.noRoom_iff _ _)
  have lost : Operation.Sets operation ∧ Loses table operation.key ↔
      Operation.Sets other ∧ Loses table other.key := by
    rw [key]
    exact and_congr sets Iff.rfl
  rw [View.step, View.step]
  by_cases full : Operation.Sets operation ∧
      left.NoRoom operation.key table
  · rw [if_pos full, if_pos (refused.mp full)]
    exact same
  · rw [if_neg full, if_neg (mt refused.mpr full)]
    by_cases blank : Operation.Sets operation ∧ Loses table operation.key
    · rw [if_pos blank, if_pos (lost.mp blank)]
      exact ⟨same.values, congrArg (· + 1) same.blanks⟩
    · rw [if_neg blank, if_neg (mt lost.mpr blank)]
      exact ⟨paired.step same.values, same.blanks⟩

/-! ## Twins -/

/-- Tables that the commands cannot tell apart. -/
structure Twins (live replayed : Tables) : Prop where
  valid : Valid live
  rebuilt : Valid replayed
  array : live.array = replayed.array
  views : ∀ table,
    SameView (Tables.view live table) (Tables.view replayed table)

/-- A call leaves the views of the other tables alone. -/
theorem operate_view_other (level : Level) (tables : Tables)
    {table other : Table} (apart : other ≠ table) (operation : Operation) :
    Tables.view (tables.operate false level table operation).1 other =
      Tables.view tables other := by
  have map := operate_other false level tables apart operation
  cases other with
  | array =>
      cases table with
      | array => exact absurd rfl apart
      | _ => rfl
  | _ => exact congrArg (View.mk · 0) map

section Twins

variable {live replayed : Tables} (twins : Twins live replayed)

include twins

/-- Paired calls keep twins twins. -/
theorem Twins.operate {operation other : Operation}
    (paired : Paired operation other) (table : Table)
    (same : table = .array → operation = other) (level another : Level) :
    Twins (live.operate false level table operation).1
      (replayed.operate false another table other).1 := by
  refine ⟨twins.valid.operate false level _ _,
    twins.rebuilt.operate false another _ _, ?_, ?_⟩
  · cases table with
    | array =>
        rw [← same rfl]
        simp only [Tables.operate, twins.array]
    | _ => exact twins.array
  intro wanted
  by_cases here : wanted = table
  · subst here
    have first := congrArg Prod.fst
      (operate_view twins.valid false level wanted operation)
    have second := congrArg Prod.fst
      (operate_view twins.rebuilt false another wanted other)
    dsimp only at first second
    rw [first, second]
    exact (twins.views wanted).step paired wanted
  · rw [operate_view_other level live here,
      operate_view_other another replayed here]
    exact twins.views wanted

/-- One hash table changes on both sides. -/
theorem Twins.setHash {name : HashName} {first second : KvsHash}
    (ok : HashOk first) (rebuilt : HashOk second)
    (values : SameValued (contents (HashTable.entries first))
      (contents (HashTable.entries second))) :
    Twins
      { live with hashes := Function.update live.hashes name first }
      { replayed with
        hashes := Function.update replayed.hashes name second } := by
  refine ⟨twins.valid.setHash ok, twins.rebuilt.setHash rebuilt,
    twins.array, ?_⟩
  intro wanted
  cases wanted with
  | array => exact twins.views .array
  | rbtree => exact twins.views .rbtree
  | hash other =>
      refine ⟨?_, rfl⟩
      by_cases here : other = name
      · subst here
        simp only [Tables.view, Tables.map, Tables.keyed, Tables.entries,
          Function.update_self]
        exact values
      · have kept := (twins.views (.hash other)).values
        simp only [Tables.view, Tables.map, Tables.keyed, Tables.entries,
          Function.update_of_ne here] at kept ⊢
        exact kept
  | skip => exact twins.views .skip

/-- An addition to a list of ids. -/
theorem Twins.append (key id : Bytes) :
    Twins
      { live with
        hashes := Function.update live.hashes .hash4
          (kvsHashAppend false 0 (live.hashes .hash4) key 0 id).1 }
      { replayed with
        hashes := Function.update replayed.hashes .hash4
          (kvsHashAppend false 0 (replayed.hashes .hash4) key 0 id).1 } := by
  have ok := twins.valid.hashes .hash4
  have rebuilt := twins.rebuilt.hashes .hash4
  have values : SameValued
      (contents (HashTable.entries (live.hashes .hash4)))
      (contents (HashTable.entries (replayed.hashes .hash4))) :=
    (twins.views (.hash .hash4)).values
  refine twins.setHash (hashOk_append ok _ _ _ _)
    (hashOk_append rebuilt _ _ _ _) ?_
  by_cases proper : id = []
  · rw [proper, kvsHashAppend_nil, kvsHashAppend_nil]
    exact values
  · have sizes : (nodes (live.hashes .hash4)).length =
        (nodes (replayed.hashes .hash4)).length := by
      rw [← map_hash_size twins.valid, ← map_hash_size twins.rebuilt]
      exact values.size_eq
    by_cases room : (nodes (live.hashes .hash4)).length < slotLimit
    · rw [kvsHashAppend_contents ok room 0 key proper,
        kvsHashAppend_contents rebuilt (by omega) 0 key proper]
      intro wanted
      dsimp only
      split_ifs
      · exact appendId_value (values key) id
      · exact values wanted
    · have full := Nat.le_antisymm (ok.load.trans ok.most)
        (Nat.le_of_not_lt room)
      rw [kvsHashAppend_full ok full,
        kvsHashAppend_full rebuilt (sizes ▸ full)]
      exact values

/-- An addition to the time index. -/
theorem Twins.zsetAdd (timestamp : Int) (id : Bytes)
    (level another : Level) :
    Twins
      { live with skip := (kvsZsetAdd live.skip timestamp id level).1 }
      { replayed with
        skip := (kvsZsetAdd replayed.skip timestamp id another).1 } := by
  have values : SameValued (contents live.skip.entries)
      (contents replayed.skip.entries) := (twins.views .skip).values
  refine ⟨⟨twins.valid.array, twins.valid.rbtree, twins.valid.hashes,
      skipValid_zsetAdd twins.valid.skip timestamp id level⟩,
    ⟨twins.rebuilt.array, twins.rebuilt.rbtree, twins.rebuilt.hashes,
      skipValid_zsetAdd twins.rebuilt.skip timestamp id another⟩,
    twins.array, ?_⟩
  intro wanted
  cases wanted with
  | array => exact twins.views .array
  | rbtree => exact twins.views .rbtree
  | hash name => exact twins.views (.hash name)
  | skip =>
      refine ⟨?_, rfl⟩
      change SameValued
        (contents (kvsZsetAdd live.skip timestamp id level).1.entries)
        (contents (kvsZsetAdd replayed.skip timestamp id another).1.entries)
      rw [kvsZsetAdd_contents twins.valid.skip,
        kvsZsetAdd_contents twins.rebuilt.skip]
      cases zsetKey timestamp id with
      | none => exact values
      | some key => exact values.set key [] 0 0

end Twins

end Kivo.Engine.TwinTables
