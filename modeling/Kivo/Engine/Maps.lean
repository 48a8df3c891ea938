import Kivo.Engine.Store

/-!
# The maps behind the tables

What the commands can tell about a table is the map from its keys to what they
hold.  A call carries out its step on the map of its table and leaves the other
maps alone.  There are two exceptions, both at a set: a table without room
refuses the key, and the array stores an empty key where no search finds it.
-/

namespace Kivo.Engine.Maps

open Kivo.Clib.Memory
open Kivo.Clib.SortedList (put)
open Kivo.Engine.Data
open Kivo.Engine.KeyMap
open Kivo.Engine.ArrayEngine
open Kivo.Engine.HashEngine
open Kivo.Engine.RbtreeEngine
open Kivo.Engine.SkipEngine
open Kivo.Engine.ArrayRuns (ArraySlots arrayStep)
open Kivo.Engine.HashTable (HashOk nodes slotLimit)
open Kivo.Engine.HashRuns (hashStep)
open Kivo.Engine.RbtreeRuns (rbtreeStep)
open Kivo.Engine.SkipRuns (Level skipStep)
open Kivo.Engine.Store

/-! ## Maps -/

/-- The map of a table. -/
def Tables.map (tables : Tables) (table : Table) : Contents :=
  contents (tables.keyed table)

/-- Fresh tables hold nothing. -/
theorem map_create (table : Table) :
    Tables.map Tables.create table = Contents.empty := by
  cases table with
  | array => rfl
  | rbtree => exact congrArg contents RbtreeOrder.entries_create
  | hash name => rfl
  | skip => exact congrArg contents SkipOrder.entries_create

/-- The call sets a key. -/
def Operation.Sets : Operation → Prop
  | .set _ _ _ => True
  | .mod _ _ _ => True
  | _ => False

/-- The table has no room for the key: the array for a new one, a hash table
for any. -/
def Refuses (tables : Tables) (key : Bytes) : Table → Prop
  | .array =>
      Tables.map tables .array key = none ∧
        kvsArraySize ≤ tables.array.items.length
  | .rbtree => False
  | .hash name => (nodes (tables.hashes name)).length = slotLimit
  | .skip => False

/-- The array stores an empty key without a key. -/
def Loses (table : Table) (key : Bytes) : Prop :=
  table = .array ∧ key = []

/-- Without TTL a reading call removes nothing. -/
theorem purge_false (map : Contents) (now : Int) (key : Bytes) :
    map.purge false now key = map := by
  rw [Contents.purge]
  cases map key with
  | none => rfl
  | some stored => exact if_neg (fun late => Bool.false_ne_true late.1)

/-- A call leaves the other tables alone. -/
theorem operate_other (enableTtl : Bool) (level : Level) (tables : Tables)
    {table other : Table} (apart : other ≠ table) (operation : Operation) :
    Tables.map (tables.operate enableTtl level table operation).1 other =
      Tables.map tables other := by
  cases table with
  | array =>
      cases other with
      | array => exact absurd rfl apart
      | rbtree => rfl
      | hash name => rfl
      | skip => rfl
  | rbtree =>
      cases other with
      | array => rfl
      | rbtree => exact absurd rfl apart
      | hash name => rfl
      | skip => rfl
  | hash name =>
      cases other with
      | array => rfl
      | rbtree => rfl
      | hash otherName =>
          have different : otherName ≠ name := by
            rintro rfl
            exact apart rfl
          simp only [Tables.map, Tables.keyed, Tables.entries,
            Tables.operate, Function.update_of_ne different]
      | skip => rfl
  | skip =>
      cases other with
      | array => rfl
      | rbtree => rfl
      | hash name => rfl
      | skip => exact absurd rfl apart

/-! ## Calls on the array -/

section Array

variable {inst : KvsArray} (slots : ArraySlots inst)

include slots

/-- A call that sets no key is a step on the map. -/
theorem arrayStep_reads (enableTtl : Bool) {operation : Operation}
    (reads : ¬ Operation.Sets operation) :
    (contents (ArrayRuns.entries (ArrayRuns.keyedPart
          (arrayStep enableTtl inst operation).1)),
        (arrayStep enableTtl inst operation).2) =
      (contents (ArrayRuns.entries (ArrayRuns.keyedPart inst))).step
        enableTtl operation := by
  cases operation with
  | set key value expireTime => exact absurd trivial reads
  | mod key value expireTime => exact absurd trivial reads
  | get now key =>
      obtain ⟨purged, found⟩ := slots.get_contents enableTtl now key
      simp only [arrayStep, Contents.step, purged, found]
  | exist now key =>
      obtain ⟨purged, found⟩ := slots.get_contents enableTtl now key
      simp only [arrayStep, kvsArrayExist, Contents.step, purged, found]
      cases (contents (ArrayRuns.entries (ArrayRuns.keyedPart inst))).purge
        enableTtl now key key <;> rfl
  | del key =>
      obtain ⟨erased, status⟩ := slots.del_contents key
      simp only [arrayStep, Contents.step, erased, status]
  | delIfExpired key expectedExpire =>
      obtain ⟨erased, fired⟩ :=
        Prod.ext_iff.mp (slots.delIfExpired_contents key expectedExpire)
      by_cases due : (contents (ArrayRuns.entries (ArrayRuns.keyedPart inst))
          key).map Item.expireTime = some expectedExpire
      · simp only [if_pos due] at erased fired
        simp only [arrayStep, Contents.step, if_pos due, erased, fired,
          if_true]
      · simp only [if_neg due] at erased fired
        simp only [arrayStep, Contents.step, if_neg due, erased, fired,
          Bool.false_eq_true, if_false]

/-- A set of a proper key is a step on the map when there is room. -/
theorem arrayStep_sets (enableTtl : Bool) {operation : Operation}
    (sets : Operation.Sets operation) (proper : operation.key ≠ [])
    (room : contents (ArrayRuns.entries (ArrayRuns.keyedPart inst))
        operation.key ≠ none ∨ inst.items.length < kvsArraySize) :
    (contents (ArrayRuns.entries (ArrayRuns.keyedPart
          (arrayStep enableTtl inst operation).1)),
        (arrayStep enableTtl inst operation).2) =
      (contents (ArrayRuns.entries (ArrayRuns.keyedPart inst))).step
        enableTtl operation := by
  cases operation with
  | set key value expireTime =>
      obtain ⟨stored, status⟩ :=
        @ArraySlots.set_contents inst key slots proper room value expireTime
      simp only [arrayStep, Contents.step, stored, status]
  | mod key value expireTime =>
      obtain ⟨stored, status⟩ :=
        @ArraySlots.set_contents inst key slots proper room value expireTime
      simp only [arrayStep, kvsArrayMod, Contents.step, stored, status]
  | get now key => exact absurd sets id
  | exist now key => exact absurd sets id
  | del key => exact absurd sets id
  | delIfExpired key expectedExpire => exact absurd sets id

end Array

/-! ## Calls on the tables -/

section Calls

variable {tables : Tables} (valid : Valid tables)

include valid

/-- What a call does to the map of its table, and what it answers. -/
theorem operate_map (enableTtl : Bool) (level : Level) (table : Table)
    {operation : Operation}
    (carried : Operation.Sets operation →
      ¬ Refuses tables operation.key table ∧ ¬ Loses table operation.key) :
    (Tables.map (tables.operate enableTtl level table operation).1 table,
        (tables.operate enableTtl level table operation).2) =
      (Tables.map tables table).step enableTtl operation := by
  cases table with
  | array =>
      by_cases sets : Operation.Sets operation
      · obtain ⟨room, proper⟩ := carried sets
        refine arrayStep_sets valid.array enableTtl sets ?_ ?_
        · exact fun empty => proper ⟨rfl, empty⟩
        · by_cases present : Tables.map tables .array operation.key = none
          · exact Or.inr (Nat.lt_of_not_le
              (fun full => room ⟨present, full⟩))
          · exact Or.inl present
      · exact arrayStep_reads valid.array enableTtl sets
  | rbtree =>
      obtain ⟨represents, answer⟩ := RbtreeRuns.rbtreeStep_represents
        enableTtl ⟨valid.rbtree, rfl⟩ operation
      exact Prod.ext represents.2 answer
  | hash name =>
      have room : HashRuns.HasRoom (tables.hashes name)
          (operation, false) := by
        have space : Operation.Sets operation →
            (nodes (tables.hashes name)).length < slotLimit := by
          intro sets
          have ok := valid.hashes name
          exact Nat.lt_of_le_of_ne (ok.load.trans ok.most) (carried sets).1
        cases operation with
        | set key value expireTime => exact space trivial
        | mod key value expireTime => exact space trivial
        | get now key => trivial
        | exist now key => trivial
        | del key => trivial
        | delIfExpired key expectedExpire => trivial
      obtain ⟨represents, answer⟩ := HashRuns.hashStep_represents enableTtl
        ⟨valid.hashes name, rfl⟩ (operation, false) room
      refine Prod.ext ?_ answer
      simp only [Tables.map, Tables.keyed, Tables.entries, Tables.operate,
        Function.update_self]
      exact represents.2
  | skip =>
      obtain ⟨represents, answer⟩ := SkipRuns.skipStep_represents enableTtl
        ⟨valid.skip, rfl⟩ (operation, level)
      exact Prod.ext represents.2 answer

/-- A table without room answers with an error and stays as it is. -/
theorem operate_refused (enableTtl : Bool) (level : Level)
    {table : Table} {operation : Operation}
    (sets : Operation.Sets operation)
    (refused : Refuses tables operation.key table) :
    tables.operate enableTtl level table operation =
      (tables, .status (-1)) := by
  cases table with
  | array =>
      obtain ⟨missing, full⟩ := refused
      cases operation with
      | set key value expireTime =>
          have set := @ArraySlots.set_full _ key valid.array missing full
            value expireTime
          simp only [Tables.operate, arrayStep, set]
      | mod key value expireTime =>
          have set := @ArraySlots.set_full _ key valid.array missing full
            value expireTime
          simp only [Tables.operate, arrayStep, kvsArrayMod, set]
      | get now key => exact absurd sets id
      | exist now key => exact absurd sets id
      | del key => exact absurd sets id
      | delIfExpired key expectedExpire => exact absurd sets id
  | rbtree => exact absurd refused id
  | hash name =>
      have set := HashTable.kvsHashSet_full (valid.hashes name) refused
      cases operation with
      | set key value expireTime =>
          simp only [Tables.operate, hashStep, set, Function.update_eq_self]
      | mod key value expireTime =>
          simp only [Tables.operate, hashStep, kvsHashMod, set,
            Function.update_eq_self]
      | get now key => exact absurd sets id
      | exist now key => exact absurd sets id
      | del key => exact absurd sets id
      | delIfExpired key expectedExpire => exact absurd sets id
  | skip => exact absurd refused id

/-- The map of the array has no empty key. -/
theorem map_array_nil : Tables.map tables .array [] = none := by
  have search := valid.array.arrayFind_contents []
  rw [Tables.map]
  refine search.symm.trans ?_
  rw [Option.map_eq_none_iff, arrayFind, List.find?_eq_none]
  intro item member
  rw [ArrayItem.hasKey]
  cases here : item.key with
  | none => exact Bool.false_ne_true
  | some stored =>
      dsimp only
      rw [beq_iff_eq, kvDataCompare_eq_iff]
      rintro rfl
      exact valid.array.proper item member here

/-- The array takes an empty key and stores it out of sight. -/
theorem operate_lost (enableTtl : Bool) (level : Level) {table : Table}
    {operation : Operation} (sets : Operation.Sets operation)
    (lost : Loses table operation.key)
    (room : ¬ Refuses tables operation.key table) :
    Tables.map (tables.operate enableTtl level table operation).1 table =
        Tables.map tables table ∧
      (tables.operate enableTtl level table operation).2 = .status 0 := by
  obtain ⟨rfl, empty⟩ := lost
  have space : tables.array.items.length < kvsArraySize := by
    refine Nat.lt_of_not_le (fun full => room ⟨?_, full⟩)
    rw [empty]
    exact map_array_nil valid
  have set := fun value expireTime =>
    valid.array.set_empty space value expireTime
  cases operation with
  | set key value expireTime =>
      cases (show key = [] from empty)
      simp only [Tables.map, Tables.keyed, Tables.operate, arrayStep,
        (set value expireTime).1, (set value expireTime).2]
      exact ⟨trivial, trivial⟩
  | mod key value expireTime =>
      cases (show key = [] from empty)
      simp only [Tables.map, Tables.keyed, Tables.operate, arrayStep,
        kvsArrayMod, (set value expireTime).1, (set value expireTime).2]
      exact ⟨trivial, trivial⟩
  | get now key => exact absurd sets id
  | exist now key => exact absurd sets id
  | del key => exact absurd sets id
  | delIfExpired key expectedExpire => exact absurd sets id

/-- A call touches no key but its own. -/
theorem operate_frame (enableTtl : Bool) (level : Level)
    (table other : Table) (operation : Operation) {key : Bytes}
    (apart : other = table → key ≠ operation.key) :
    Tables.map (tables.operate enableTtl level table operation).1 other key =
      Tables.map tables other key := by
  by_cases here : other = table
  · subst here
    by_cases refused : Operation.Sets operation ∧
        Refuses tables operation.key other
    · rw [operate_refused valid enableTtl level refused.1 refused.2]
    · by_cases lost : Operation.Sets operation ∧ Loses other operation.key
      · rw [(operate_lost valid enableTtl level lost.1 lost.2
          (fun none => refused ⟨lost.1, none⟩)).1]
      · have step := operate_map valid enableTtl level other
          (fun sets => ⟨fun none => refused ⟨sets, none⟩,
            fun gone => lost ⟨sets, gone⟩⟩)
        exact (congrFun (congrArg Prod.fst step) key).trans
          (step_of_ne enableTtl _ operation (apart rfl))
  · rw [operate_other enableTtl level tables here]

end Calls

/-! ## Tables as their commands see them -/

/-- The map of a table, and the number of its slots out of sight. -/
structure View where
  map : Contents
  blanks : Nat

/-- What the commands see of a table. -/
def Tables.view (tables : Tables) (table : Table) : View :=
  { map := Tables.map tables table
    blanks :=
      match table with
      | .array => ArrayRuns.blanks tables.array
      | _ => 0 }

/-- There is no room for a key, as the view tells it. -/
def View.NoRoom (view : View) (key : Bytes) : Table → Prop
  | .array =>
      view.map key = none ∧ kvsArraySize ≤ view.map.size + view.blanks
  | .rbtree => False
  | .hash _ => view.map.size = slotLimit
  | .skip => False

open Classical in
/-- A call on the view of a table. -/
noncomputable def View.step (table : Table) (enableTtl : Bool) (view : View)
    (operation : Operation) : View × Answer :=
  if Operation.Sets operation ∧ view.NoRoom operation.key table then
    (view, .status (-1))
  else if Operation.Sets operation ∧ Loses table operation.key then
    ({ view with blanks := view.blanks + 1 }, .status 0)
  else
    ({ view with map := (view.map.step enableTtl operation).1 },
      (view.map.step enableTtl operation).2)

section Views

variable {tables : Tables} (valid : Valid tables)

include valid

theorem map_hash_size (name : HashName) :
    (Tables.map tables (.hash name)).size =
      (nodes (tables.hashes name)).length := by
  rw [Tables.map, contents_size (valid.distinct (.hash name))]
  simp only [Tables.keyed, Tables.entries, HashTable.entries, List.length_map]

theorem map_array_size :
    tables.array.items.length =
      (Tables.map tables .array).size + ArrayRuns.blanks tables.array :=
  valid.array.length_eq

theorem refuses_iff (key : Bytes) (table : Table) :
    Refuses tables key table ↔ (Tables.view tables table).NoRoom key table := by
  cases table with
  | array =>
      rw [Refuses, View.NoRoom, map_array_size valid]
      rfl
  | rbtree => rfl
  | hash name =>
      rw [Refuses, View.NoRoom, ← map_hash_size valid]
      rfl
  | skip => rfl

/-- The slots out of sight after a call. -/
theorem operate_blanks (enableTtl : Bool) (level : Level) (table : Table)
    {operation : Operation}
    (carried : Operation.Sets operation → ¬ Loses table operation.key) :
    (Tables.view (tables.operate enableTtl level table operation).1
        table).blanks =
      (Tables.view tables table).blanks := by
  cases table with
  | array =>
      refine valid.array.blanks_step enableTtl operation ?_
      cases operation with
      | set key value expireTime =>
          exact fun empty => carried trivial ⟨rfl, empty⟩
      | mod key value expireTime =>
          exact fun empty => carried trivial ⟨rfl, empty⟩
      | get now key => trivial
      | exist now key => trivial
      | del key => trivial
      | delIfExpired key expectedExpire => trivial
  | rbtree => rfl
  | hash name => rfl
  | skip => rfl

theorem operate_lost_blanks (enableTtl : Bool) (level : Level)
    {table : Table} {operation : Operation}
    (sets : Operation.Sets operation) (lost : Loses table operation.key)
    (room : ¬ Refuses tables operation.key table) :
    (Tables.view (tables.operate enableTtl level table operation).1
        table).blanks =
      (Tables.view tables table).blanks + 1 := by
  obtain ⟨rfl, empty⟩ := lost
  have space : tables.array.items.length < kvsArraySize := by
    refine Nat.lt_of_not_le (fun full => room ⟨?_, full⟩)
    rw [empty]
    exact map_array_nil valid
  cases operation with
  | set key value expireTime =>
      cases (show key = [] from empty)
      exact valid.array.blanks_set_empty space value expireTime
  | mod key value expireTime =>
      cases (show key = [] from empty)
      exact valid.array.blanks_set_empty space value expireTime
  | get now key => exact absurd sets id
  | exist now key => exact absurd sets id
  | del key => exact absurd sets id
  | delIfExpired key expectedExpire => exact absurd sets id

/-- A call on a table is a call on its view. -/
theorem operate_view (enableTtl : Bool) (level : Level) (table : Table)
    (operation : Operation) :
    (Tables.view (tables.operate enableTtl level table operation).1 table,
        (tables.operate enableTtl level table operation).2) =
      (Tables.view tables table).step table enableTtl operation := by
  rw [View.step]
  split_ifs with refused lost
  · rw [operate_refused valid enableTtl level refused.1
      ((refuses_iff valid _ _).mpr refused.2)]
  · have room : ¬ Refuses tables operation.key table :=
      fun none => refused ⟨lost.1, (refuses_iff valid _ _).mp none⟩
    obtain ⟨map, answer⟩ :=
      operate_lost valid enableTtl level lost.1 lost.2 room
    have blanks := operate_lost_blanks valid enableTtl level lost.1 lost.2 room
    rw [answer, ← blanks]
    exact congrArg (·, Answer.status 0) (congrArg₂ View.mk map rfl)
  · have step := operate_map valid enableTtl level table
      (fun sets => ⟨fun none => refused
        ⟨sets, (refuses_iff valid operation.key table).mp none⟩,
        fun gone => lost ⟨sets, gone⟩⟩)
    have blanks := operate_blanks valid enableTtl level table
      (fun sets gone => lost ⟨sets, gone⟩)
    obtain ⟨map, answer⟩ := Prod.ext_iff.mp step
    exact Prod.ext (congrArg₂ View.mk map blanks) answer

/-- A table that misses an entry of another one has room. -/
theorem noRoom_erase {tables' : Tables} (table : Table) {key : Bytes}
    (present : Tables.map tables table key ≠ none)
    (map : Tables.map tables' table = (Tables.map tables table).erase key)
    (blanks : (Tables.view tables' table).blanks =
      (Tables.view tables table).blanks) (other : Bytes) :
    ¬ (Tables.view tables' table).NoRoom other table := by
  have smaller : ((Tables.map tables table).erase key).size + 1 =
      (Tables.map tables table).size :=
    size_erase (contents_finite (tables.keyed table)) present
  cases table with
  | array =>
      rintro ⟨-, full⟩
      have size : (Tables.view tables' .array).map.size + 1 =
          (Tables.map tables .array).size := by
        rw [← smaller, ← map]
        rfl
      have length := map_array_size valid
      have bounded := valid.array.bounded
      rw [blanks] at full
      change _ ≤ _ + ArrayRuns.blanks tables.array at full
      omega
  | rbtree => exact id
  | hash name =>
      intro full
      have size : (Tables.view tables' (.hash name)).map.size + 1 =
          (Tables.map tables (.hash name)).size := by
        rw [← smaller, ← map]
        rfl
      have count := map_hash_size valid name
      have most := (valid.hashes name).load.trans (valid.hashes name).most
      rw [View.NoRoom] at full
      omega
  | skip => exact id

end Views

/-! ## Lists of ids and the time index -/

/-- What a key of `global_hash4` holds after an addition. -/
def appendId (old : Option Item) (id : Bytes) : Option Item :=
  let text := (old.map Item.value).getD []
  if text.length = 0 then some { value := id, expireTime := 0 }
  else if id ∈ splitComma text then old
  else some { value := text ++ ascii "," ++ id, expireTime := 0 }

section Additions

variable {hash : KvsHash} (ok : HashOk hash)

include ok

/-- Without TTL an addition reads what the key holds. -/
theorem kvsHashGet_off (now : Int) (key : Bytes) :
    kvsHashGet false now hash key 0 =
      (hash, (contents (HashTable.entries hash) key).map Item.value) := by
  have read := (HashRuns.kvsHashGet_contents ok
    (Or.inl rfl : HashTable.CacheOk key 0) false now).2.2
  have kept : (kvsHashGet false now hash key 0).1 = hash := by
    rw [kvsHashGet]
    split <;> simp
  refine Prod.ext kept ?_
  rw [read, purge_false]

/-- An addition to a table without room changes nothing. -/
theorem kvsHashAppend_full (full : (nodes hash).length = slotLimit)
    (now : Int) (key id : Bytes) :
    (kvsHashAppend false now hash key 0 id).1 = hash := by
  rw [kvsHashAppend, kvsHashGet_off ok]
  split_ifs
  · rfl
  · dsimp only
    split_ifs
    · rw [HashTable.kvsHashSet_full ok full]
    · rfl
    · rw [HashTable.kvsHashSet_full ok full]

/-- An addition with room for it changes its key. -/
theorem kvsHashAppend_contents (room : (nodes hash).length < slotLimit)
    (now : Int) (key : Bytes) {id : Bytes} (proper : id ≠ []) :
    contents (HashTable.entries (kvsHashAppend false now hash key 0 id).1) =
      fun other =>
        if other = key then
          appendId (contents (HashTable.entries hash) key) id
        else contents (HashTable.entries hash) other := by
  have set := fun value => (HashTable.kvsHashSet_contents ok room
    (Or.inl rfl : HashTable.CacheOk key 0) value 0).2.1
  have nonempty : ¬ id.length = 0 := by simpa using proper
  rw [kvsHashAppend, kvsHashGet_off ok, if_neg nonempty]
  dsimp only [appendId]
  split_ifs
  · rw [set]
    rfl
  · funext other
    split_ifs with same
    · rw [same]
    · rfl
  · rw [set]
    rfl

end Additions

theorem kvsHashAppend_nil (hash : KvsHash) (now : Int) (key : Bytes) :
    (kvsHashAppend false now hash key 0 []).1 = hash := by
  rw [kvsHashAppend, if_pos List.length_nil]

/-- An addition touches no key but its own. -/
theorem kvsHashAppend_frame {hash : KvsHash} (ok : HashOk hash) (now : Int)
    {key other : Bytes} (apart : other ≠ key) (id : Bytes) :
    contents (HashTable.entries (kvsHashAppend false now hash key 0 id).1)
        other =
      contents (HashTable.entries hash) other := by
  by_cases proper : id = []
  · rw [proper, kvsHashAppend_nil]
  · by_cases room : (nodes hash).length < slotLimit
    · rw [kvsHashAppend_contents ok room now key proper]
      exact if_neg apart
    · rw [kvsHashAppend_full ok (Nat.le_antisymm (ok.load.trans ok.most)
        (Nat.le_of_not_lt room))]

/-- The key under which `ZADD` stores an id, unless it stores nothing. -/
def zsetKey (timestamp : Int) (id : Bytes) : Option Bytes :=
  if id.length = 0 then none else zsetMakeKey timestamp id

/-- `kvs_zset_add` on the entries of the skip list. -/
theorem kvsZsetAdd_entries {skip : KvsSkip} (valid : SkipOrder.SkipValid skip)
    (timestamp : Int) (id : Bytes) (level : Level) :
    SkipOrder.SkipValid (kvsZsetAdd skip timestamp id level).1 ∧
      (kvsZsetAdd skip timestamp id level).1.entries =
        match zsetKey timestamp id with
        | none => skip.entries
        | some key =>
            put kvDataCompare Entry.key skip.entries
              { key := key, value := [], expireTime := 0 } := by
  refine ⟨skipValid_zsetAdd valid timestamp id level, ?_⟩
  rw [kvsZsetAdd, zsetKey]
  split_ifs with empty
  · rfl
  · cases zsetMakeKey timestamp id with
    | none => rfl
    | some key =>
        exact (SkipOrder.kvsSkipSet_put valid key [] 0
          (Nat.le_of_lt_succ level.isLt)).2.1

/-- `kvs_zset_add` sets its key to an empty value. -/
theorem kvsZsetAdd_contents {skip : KvsSkip} (valid : SkipOrder.SkipValid skip)
    (timestamp : Int) (id : Bytes) (level : Level) :
    contents (kvsZsetAdd skip timestamp id level).1.entries =
      match zsetKey timestamp id with
      | none => contents skip.entries
      | some key =>
          (contents skip.entries).set key { value := [], expireTime := 0 } := by
  rw [kvsZsetAdd, zsetKey]
  split_ifs with empty
  · rfl
  · cases zsetMakeKey timestamp id with
    | none => rfl
    | some key =>
        exact (SkipRuns.skipStep_represents false ⟨valid, rfl⟩
          (.set key [] 0, level)).1.2

end Kivo.Engine.Maps
