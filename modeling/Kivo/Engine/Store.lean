import Kivo.Engine.ArrayRuns
import Kivo.Engine.HashRuns
import Kivo.Engine.RbtreeRuns
import Kivo.Engine.SkipRuns

/-!
# The eight tables

The server keeps one array, one red-black tree, one skip list and five hash
tables.  They share nothing, so a state of the eight tables is reached exactly
when every table is reached by a run of its own engine.
-/

namespace Kivo.Engine.Store

open Kivo.Clib.Memory
open Kivo.Clib.Simulation
open Kivo.Engine.Data
open Kivo.Engine.KeyMap
open Kivo.Engine.ArrayEngine
open Kivo.Engine.HashEngine
open Kivo.Engine.RbtreeEngine
open Kivo.Engine.RbtreeOrder
open Kivo.Engine.SkipEngine
open Kivo.Engine.SkipOrder
open Kivo.Engine.ArrayRuns (ArrayOk ArraySlots keyedPart arrayStep)
open Kivo.Engine.HashTable (HashOk slotLimit)
open Kivo.Engine.HashRuns (hashStep)
open Kivo.Engine.RbtreeRuns (rbtreeStep)
open Kivo.Engine.SkipRuns (Level skipStep)

/-! ## State -/

/-- The hash tables: `global_hash` and `global_hash1` to `global_hash4`. -/
inductive HashName where
  | hash
  | hash1
  | hash2
  | hash3
  | hash4
deriving DecidableEq, Repr

/-- The tables: `global_array`, `global_rbtree`, the hash tables and
`global_skip`. -/
inductive Table where
  | array
  | rbtree
  | hash (name : HashName)
  | skip
deriving DecidableEq, Repr

/-- The global variables that hold the tables. -/
structure Tables where
  array : KvsArray
  rbtree : KvsRbtree
  hashes : HashName → KvsHash
  skip : KvsSkip

/-- The tables after `kvs_*_create`. -/
def Tables.create : Tables :=
  { array := kvsArrayCreate
    rbtree := kvsRbtreeCreate
    hashes := fun _ => kvsHashCreate
    skip := kvsSkipCreate }

/-- The entries of a table; a null key of the array reads as the empty one. -/
def Tables.entries (tables : Tables) : Table → List Entry
  | .array => ArrayRuns.entries tables.array
  | .rbtree => tables.rbtree.entries
  | .hash name => HashTable.entries (tables.hashes name)
  | .skip => tables.skip.entries

/-- The entries of a table whose key is not a null pointer. -/
def Tables.keyed (tables : Tables) : Table → List Entry
  | .array => ArrayRuns.entries (keyedPart tables.array)
  | table => tables.entries table

/-! ## Calls -/

/-- The value that the `kvs_*_get` of a table returns. -/
def Tables.get (enableTtl : Bool) (now : Int) (tables : Tables)
    (key : Bytes) : Table → Option Bytes
  | .array => (kvsArrayGet enableTtl now tables.array key).2
  | .rbtree => (kvsRbtreeGet enableTtl now tables.rbtree key).2
  | .hash name => (kvsHashGet enableTtl now (tables.hashes name) key 0).2
  | .skip => (kvsSkipGet enableTtl now tables.skip key).2

/-- The entries that the `kvs_*_foreach` of a table hands to its callback. -/
def Tables.foreach (enableTtl : Bool) (now : Int) (tables : Tables) :
    Table → List Entry
  | .array => kvsArrayForeach enableTtl now tables.array
  | .rbtree => kvsRbtreeForeach enableTtl now tables.rbtree
  | .hash name => kvsHashForeach enableTtl now (tables.hashes name)
  | .skip => kvsSkipForeach enableTtl now tables.skip

/-- The `kvs_*_set` of a table; `level` is what `random_level` draws. -/
def Tables.set (level : Level) (tables : Tables) (table : Table)
    (entry : Entry) : Tables :=
  match table with
  | .array =>
      { tables with
        array := (kvsArraySet tables.array entry.key entry.value
          entry.expireTime).1 }
  | .rbtree =>
      { tables with
        rbtree := (kvsRbtreeSet tables.rbtree entry.key entry.value
          entry.expireTime).1 }
  | .hash name =>
      { tables with
        hashes := Function.update tables.hashes name
          (kvsHashSet (tables.hashes name) entry.key 0 entry.value
            entry.expireTime).1 }
  | .skip =>
      { tables with
        skip := (kvsSkipSet tables.skip entry.key entry.value
          entry.expireTime level).1 }

/-- A call on one table; the keys of commands come without a hash. -/
def Tables.operate (enableTtl : Bool) (level : Level) (tables : Tables)
    (table : Table) (operation : Operation) : Tables × Answer :=
  match table with
  | .array =>
      let result := arrayStep enableTtl tables.array operation
      ({ tables with array := result.1 }, result.2)
  | .rbtree =>
      let result := rbtreeStep enableTtl tables.rbtree operation
      ({ tables with rbtree := result.1 }, result.2)
  | .hash name =>
      let result := hashStep enableTtl (tables.hashes name)
        (operation, false)
      ({ tables with
        hashes := Function.update tables.hashes name result.1 }, result.2)
  | .skip =>
      let result := skipStep enableTtl tables.skip (operation, level)
      ({ tables with skip := result.1 }, result.2)

/-! ## Reachable states -/

/--
Every table is reached by calls of its engine.  The fields that hold an expiry
time have the type `int64_t`.
-/
structure Reachable (enableTtl : Bool) (tables : Tables) : Prop where
  array : ∃ operations, tables.array =
    (run (arrayStep enableTtl) kvsArrayCreate operations).1
  rbtree : ∃ operations, tables.rbtree =
    (run (rbtreeStep enableTtl) kvsRbtreeCreate operations).1
  hashes : ∀ name, ∃ inputs, tables.hashes name =
    (run (hashStep enableTtl) kvsHashCreate inputs).1
  skip : ∃ inputs, tables.skip =
    (run (skipStep enableTtl) kvsSkipCreate inputs).1
  times : ∀ table, ∀ entry ∈ tables.entries table,
    -2 ^ 63 ≤ entry.expireTime ∧ entry.expireTime < 2 ^ 63

/-- Every table is in a consistent state. -/
structure Valid (tables : Tables) : Prop where
  array : ArraySlots tables.array
  rbtree : RbValid tables.rbtree
  hashes : ∀ name, HashOk (tables.hashes name)
  skip : SkipValid tables.skip

theorem valid_create : Valid Tables.create :=
  ⟨ArrayRuns.arraySlots_create, rbValid_create,
    fun _ => HashTable.hashOk_create, skipValid_create⟩

/-- A hash table that is full refuses the entry and stays consistent. -/
theorem hashStep_ok {hash : KvsHash} (ok : HashOk hash) (enableTtl : Bool)
    (input : Operation × Bool) :
    HashOk (hashStep enableTtl hash input).1 := by
  by_cases room : HashRuns.HasRoom hash input
  · exact (HashRuns.hashStep_represents enableTtl ⟨ok, rfl⟩ input room).1.1
  · obtain ⟨operation, filled⟩ := input
    have full : ¬ (HashTable.nodes hash).length < slotLimit →
        (HashTable.nodes hash).length = slotLimit := by
      intro least
      exact Nat.le_antisymm (ok.load.trans ok.most) (Nat.le_of_not_lt least)
    cases operation with
    | set key value expireTime =>
        rw [hashStep]
        dsimp only
        rw [HashTable.kvsHashSet_full ok (full room)]
        exact ok
    | mod key value expireTime =>
        rw [hashStep]
        dsimp only
        rw [kvsHashMod, HashTable.kvsHashSet_full ok (full room)]
        exact ok
    | get now key => exact absurd trivial room
    | exist now key => exact absurd trivial room
    | del key => exact absurd trivial room
    | delIfExpired key expectedExpire => exact absurd trivial room

theorem hashOk_get {hash : KvsHash} (ok : HashOk hash) (enableTtl : Bool)
    (now : Int) (key : Bytes) :
    HashOk (kvsHashGet enableTtl now hash key 0).1 :=
  hashStep_ok ok enableTtl (.get now key, false)

theorem hashOk_set {hash : KvsHash} (ok : HashOk hash) (key value : Bytes)
    (expireTime : Int) :
    HashOk (kvsHashSet hash key 0 value expireTime).1 :=
  hashStep_ok ok false (.set key value expireTime, false)

theorem hashOk_append {hash : KvsHash} (ok : HashOk hash)
    (enableTtl : Bool) (now : Int) (key id : Bytes) :
    HashOk (kvsHashAppend enableTtl now hash key 0 id).1 := by
  have read := hashOk_get ok enableTtl now key
  rw [kvsHashAppend]
  split_ifs
  · exact ok
  · dsimp only
    split_ifs
    · exact hashOk_set read key id 0
    · exact read
    · exact hashOk_set read key _ 0

theorem skipValid_zsetAdd {skip : KvsSkip} (valid : SkipValid skip)
    (timestamp : Int) (id : Bytes) (level : Level) :
    SkipValid (kvsZsetAdd skip timestamp id level).1 := by
  rw [kvsZsetAdd]
  split_ifs
  · exact valid
  · split
    · exact valid
    · exact (kvsSkipSet_put valid _ [] 0
        (Nat.le_of_lt_succ level.isLt)).1

theorem Reachable.valid {enableTtl : Bool} {tables : Tables}
    (reachable : Reachable enableTtl tables) :
    Valid tables := by
  refine ⟨?_, ?_, ?_, ?_⟩
  · obtain ⟨operations, reached⟩ := reachable.array
    rw [reached]
    exact ArrayRuns.arrayRun_slots enableTtl operations
  · obtain ⟨operations, reached⟩ := reachable.rbtree
    rw [reached]
    exact (RbtreeRuns.rbtreeRun_represents enableTtl operations).1.1
  · intro name
    obtain ⟨inputs, reached⟩ := reachable.hashes name
    rw [reached]
    refine @run_invariant _ _ _ (hashStep enableTtl) (fun _ _ => True)
      HashOk ?_ _ HashTable.hashOk_create _
      (along_of_forall (fun _ _ => trivial) _)
    intro hash input ok _
    exact hashStep_ok ok enableTtl input
  · obtain ⟨inputs, reached⟩ := reachable.skip
    rw [reached]
    exact (SkipRuns.skipRun_represents enableTtl inputs).1.1

/-- Changing one hash table keeps the others consistent. -/
theorem Valid.setHash {tables : Tables} (valid : Valid tables)
    {name : HashName} {hash : KvsHash} (ok : HashOk hash) :
    Valid
      { tables with hashes := Function.update tables.hashes name hash } := by
  refine ⟨valid.array, valid.rbtree, ?_, valid.skip⟩
  intro other
  dsimp only
  by_cases same : other = name
  · subst same
    rw [Function.update_self]
    exact ok
  · rw [Function.update_of_ne same]
    exact valid.hashes other

/-- Every call keeps the tables consistent. -/
theorem Valid.operate {tables : Tables} (valid : Valid tables)
    (enableTtl : Bool) (level : Level) (table : Table)
    (operation : Operation) :
    Valid (tables.operate enableTtl level table operation).1 := by
  cases table with
  | array =>
      exact ⟨valid.array.step enableTtl operation, valid.rbtree,
        valid.hashes, valid.skip⟩
  | rbtree =>
      exact ⟨valid.array,
        (RbtreeRuns.rbtreeStep_ordered valid.rbtree enableTtl operation).1,
        valid.hashes, valid.skip⟩
  | hash name =>
      exact valid.setHash (hashStep_ok (valid.hashes name) enableTtl _)
  | skip =>
      exact ⟨valid.array, valid.rbtree, valid.hashes,
        (SkipRuns.skipStep_ordered valid.skip enableTtl operation level).1⟩

/-! ## What a valid state holds -/

section Valid

variable {tables : Tables}

theorem Valid.distinct (valid : Valid tables) (table : Table) :
    ((tables.keyed table).map Entry.key).Nodup := by
  cases table with
  | array => exact valid.array.keyedPart_ok.distinct
  | rbtree =>
      exact distinct_of_sorted (RbtreeRuns.RbValid.entries_sorted valid.rbtree)
  | hash name => exact (valid.hashes name).distinct_entries
  | skip =>
      exact distinct_of_sorted (SkipRuns.SkipValid.entries_sorted valid.skip)

/-- The walks visit the entries that are not expired; the walk of the array
stays away without TTL. -/
theorem Valid.foreach_eq (valid : Valid tables) (enableTtl : Bool)
    (now : Int) (table : Table) :
    tables.foreach enableTtl now table =
      if table = .array ∧ enableTtl = false then []
      else unexpired enableTtl now (tables.keyed table) := by
  cases table with
  | array =>
      cases enableTtl with
      | false => rfl
      | true => exact ArrayRuns.kvsArrayForeach_eq now tables.array
  | rbtree => exact RbtreeRuns.kvsRbtreeForeach_eq enableTtl now tables.rbtree
  | hash name =>
      exact HashRuns.kvsHashForeach_eq enableTtl now (tables.hashes name)
  | skip => exact SkipRuns.kvsSkipForeach_eq valid.skip enableTtl now

/-- A reading call returns the value of the entry of its key that is not
expired. -/
theorem Valid.get_eq_some_iff (valid : Valid tables) (enableTtl : Bool)
    (now : Int) (table : Table) {key value : Bytes} :
    tables.get enableTtl now key table = some value ↔
      ∃ expireTime,
        { key := key, value := value, expireTime := expireTime } ∈
          unexpired enableTtl now (tables.keyed table) := by
  rw [← read_eq_some_iff (valid.distinct table)]
  cases table with
  | array =>
      have read : tables.get enableTtl now key .array =
          (kvsArrayGet enableTtl now (keyedPart tables.array) key).2 := by
        rw [Tables.get, kvsArrayGet, kvsArrayGet,
          ← ArrayRuns.arrayFind_keyedPart]
        cases arrayFind tables.array key with
        | none => rfl
        | some slot =>
            dsimp only
            split_ifs <;> rfl
      rw [read, (ArrayRuns.kvsArrayGet_contents valid.array.keyedPart_ok
        enableTtl now key).2.2]
      rfl
  | rbtree =>
      have read := (kvsRbtreeGet_lookup valid.rbtree enableTtl now key).2
      have found := congrArg Prod.snd read
      rw [Tables.get, found]
      exact iff_of_eq (congrArg (fun result => result = some value)
        (readEntries_purge enableTtl now tables.rbtree.entries key).2)
  | hash name =>
      rw [Tables.get, (HashRuns.kvsHashGet_contents (valid.hashes name)
        (Or.inl rfl) enableTtl now).2.2]
      rfl
  | skip =>
      have read := (kvsSkipGet_lookup valid.skip enableTtl now key).2
      have found := congrArg Prod.snd read
      rw [Tables.get, found]
      exact iff_of_eq (congrArg (fun result => result = some value)
        (readEntries_purge enableTtl now tables.skip.entries key).2)

/-- An expired entry cannot be read. -/
theorem Valid.get_expired (valid : Valid tables) {table : Table}
    {entry : Entry} (member : entry ∈ tables.keyed table)
    {now : Int} (timed : 0 < entry.expireTime)
    (late : entry.expireTime < now) :
    tables.get true now entry.key table = none := by
  rw [Option.eq_none_iff_forall_ne_some]
  intro value found
  obtain ⟨time, unexpired⟩ := (valid.get_eq_some_iff true now table).mp found
  obtain ⟨stored, early⟩ := mem_unexpired.mp unexpired
  have same := List.inj_on_of_nodup_map (valid.distinct table) stored member
    rfl
  rw [← same] at timed late
  exact early ⟨rfl, timed, late⟩

end Valid

/-! ## Filling fresh tables -/

/-- A call of a `kvs_*_set`. -/
structure SetCall where
  level : Level
  table : Table
  entry : Entry

/-- The tables after a call. -/
def Tables.call (tables : Tables) (setting : SetCall) : Tables :=
  tables.set setting.level setting.table setting.entry

/-- The calls that are about a table. -/
def callsOf (table : Table) (calls : List SetCall) : List SetCall :=
  calls.filter (fun setting => decide (setting.table = table))

/-- The entries that some calls set in a table. -/
def entriesOf (table : Table) (calls : List SetCall) : List Entry :=
  (callsOf table calls).map SetCall.entry

/-- Some calls fit fresh tables and set every key once. -/
structure Fits (calls : List SetCall) : Prop where
  distinct : ∀ table, ((entriesOf table calls).map Entry.key).Nodup
  proper : ∀ entry ∈ entriesOf .array calls, entry.key ≠ []
  arrayRoom : (callsOf .array calls).length ≤ kvsArraySize
  hashRoom : ∀ name, (callsOf (.hash name) calls).length ≤ slotLimit

/-- A table holds some entries, each once. -/
def Holds (tables : Tables) (table : Table) (entries : List Entry) : Prop :=
  ((tables.entries table).map Entry.key).Nodup ∧
    contents (tables.entries table) = contents entries

theorem Holds.mem_iff {tables : Tables} {table : Table}
    {entries : List Entry} (holds : Holds tables table entries)
    (distinct : (entries.map Entry.key).Nodup) (entry : Entry) :
    entry ∈ tables.entries table ↔ entry ∈ entries := by
  rw [mem_iff_contents holds.1, mem_iff_contents distinct, holds.2]

section Filling

variable {calls : List SetCall}

/-- `kvs_array_set` stores a key that is not empty while a slot is free. -/
theorem kvsArraySet_stores {inst : KvsArray} (ok : ArrayOk inst)
    {entry : Entry} (proper : entry.key ≠ [])
    (room : (ArrayRuns.entries inst).length < kvsArraySize) :
    ArrayOk (kvsArraySet inst entry.key entry.value entry.expireTime).1 ∧
      contents (ArrayRuns.entries
        (kvsArraySet inst entry.key entry.value entry.expireTime).1) =
        (contents (ArrayRuns.entries inst)).set entry.key (item entry) := by
  obtain ⟨after, result⟩ := ArrayRuns.kvsArraySet_contents ok proper true
    entry.value entry.expireTime
  refine ⟨after, ?_⟩
  rw [Contents.boundedStep, if_neg] at result
  · exact congrArg Prod.fst result
  · rintro ⟨_, full⟩
    rw [contents_size ok.distinct] at full
    exact Nat.not_le_of_lt room full

/-- A table sees the calls that are about it. -/
theorem foldl_call {σ : Type} (table : Table) (component : Tables → σ)
    (change : σ → SetCall → σ)
    (own : ∀ tables setting, setting.table = table →
      component (tables.call setting) = change (component tables) setting)
    (other : ∀ tables setting, setting.table ≠ table →
      component (tables.call setting) = component tables)
    (calls : List SetCall) :
    component (calls.foldl Tables.call Tables.create) =
      (callsOf table calls).foldl change (component Tables.create) := by
  refine foldl_component ?_ ?_ Tables.create calls
  · intro tables setting here
    exact own tables setting (of_decide_eq_true here)
  · intro tables setting away
    exact other tables setting (of_decide_eq_false away)

theorem refill_array (fits : Fits calls) :
    Holds (calls.foldl Tables.call Tables.create) .array
      (entriesOf .array calls) := by
  rw [Holds, Tables.entries, foldl_call .array Tables.array (fun inst setting =>
    (kvsArraySet inst setting.entry.key setting.entry.value
      setting.entry.expireTime).1)]
  · refine @foldl_contents _ _ ArrayOk ArrayRuns.entries _ SetCall.entry
      (fun entry => entry.key ≠ []) kvsArraySize ?_ ?_ _
      ArrayRuns.arrayOk_create rfl _ (fits.distinct .array) fits.arrayRoom
      ?_
    · intro inst ok
      exact ok.distinct
    · intro inst setting ok room proper
      exact kvsArraySet_stores ok proper room
    · intro setting member
      exact fits.proper _ (List.mem_map_of_mem member)
  · intro tables setting here
    rw [Tables.call, here]
    rfl
  · intro tables setting away
    rw [Tables.call]
    cases table : setting.table with
    | array => exact absurd table away
    | rbtree => rfl
    | hash name => rfl
    | skip => rfl

theorem refill_rbtree (fits : Fits calls) :
    Holds (calls.foldl Tables.call Tables.create) .rbtree
      (entriesOf .rbtree calls) := by
  rw [Holds, Tables.entries, foldl_call .rbtree Tables.rbtree (fun T setting =>
    (kvsRbtreeSet T setting.entry.key setting.entry.value
      setting.entry.expireTime).1)]
  · refine @foldl_contents _ _ RbValid KvsRbtree.entries _ SetCall.entry
      (fun _ => True) _ ?_ ?_ _ rbValid_create
      RbtreeOrder.entries_create _ (fits.distinct .rbtree) (Nat.le_refl _)
      (fun _ _ => trivial)
    · intro T valid
      exact distinct_of_sorted (RbtreeRuns.RbValid.entries_sorted valid)
    · intro T setting valid _ _
      obtain ⟨after, entries, _⟩ := kvsRbtreeSet_put valid
        setting.entry.key setting.entry.value setting.entry.expireTime
      exact ⟨after, by rw [entries, contents_put]⟩
  · intro tables setting here
    rw [Tables.call, here]
    rfl
  · intro tables setting away
    rw [Tables.call]
    cases table : setting.table with
    | array => rfl
    | rbtree => exact absurd table away
    | hash name => rfl
    | skip => rfl

theorem refill_hash (fits : Fits calls) (name : HashName) :
    Holds (calls.foldl Tables.call Tables.create) (.hash name)
      (entriesOf (.hash name) calls) := by
  rw [Holds, Tables.entries,
    foldl_call (.hash name) (fun tables => tables.hashes name)
      (fun hash setting =>
        (kvsHashSet hash setting.entry.key 0 setting.entry.value
          setting.entry.expireTime).1)]
  · refine @foldl_contents _ _ HashOk HashTable.entries _ SetCall.entry
      (fun _ => True) slotLimit ?_ ?_ _ HashTable.hashOk_create rfl _
      (fits.distinct (.hash name)) (fits.hashRoom name)
      (fun _ _ => trivial)
    · intro hash ok
      exact ok.distinct_entries
    · intro hash setting ok room _
      rw [HashTable.entries, List.length_map] at room
      obtain ⟨after, stored, _⟩ := HashTable.kvsHashSet_contents ok room
        (Or.inl rfl) setting.entry.value setting.entry.expireTime
      exact ⟨after, stored⟩
  · intro tables setting here
    rw [Tables.call, here]
    exact Function.update_self name _ tables.hashes
  · intro tables setting away
    rw [Tables.call]
    cases table : setting.table with
    | array => rfl
    | rbtree => rfl
    | hash other =>
        refine Function.update_of_ne ?_ _ tables.hashes
        rintro rfl
        exact away table
    | skip => rfl

theorem refill_skip (fits : Fits calls) :
    Holds (calls.foldl Tables.call Tables.create) .skip
      (entriesOf .skip calls) := by
  rw [Holds, Tables.entries, foldl_call .skip Tables.skip (fun skip setting =>
    (kvsSkipSet skip setting.entry.key setting.entry.value
      setting.entry.expireTime setting.level).1)]
  · refine @foldl_contents _ _ SkipValid KvsSkip.entries _ SetCall.entry
      (fun _ => True) _ ?_ ?_ _ skipValid_create SkipOrder.entries_create _
      (fits.distinct .skip) (Nat.le_refl _) (fun _ _ => trivial)
    · intro skip valid
      exact distinct_of_sorted (SkipRuns.SkipValid.entries_sorted valid)
    · intro skip setting valid _ _
      obtain ⟨after, entries, _⟩ := kvsSkipSet_put valid setting.entry.key
        setting.entry.value setting.entry.expireTime
        (Nat.le_of_lt_succ setting.level.isLt)
      exact ⟨after, by rw [entries, contents_put]⟩
  · intro tables setting here
    rw [Tables.call, here]
    rfl
  · intro tables setting away
    rw [Tables.call]
    cases table : setting.table with
    | array => rfl
    | rbtree => rfl
    | hash name => rfl
    | skip => exact absurd table away

/-- Fresh tables hold what was set in them. -/
theorem refill (fits : Fits calls) (table : Table) :
    Holds (calls.foldl Tables.call Tables.create) table
      (entriesOf table calls) := by
  cases table with
  | array => exact refill_array fits
  | rbtree => exact refill_rbtree fits
  | hash name => exact refill_hash fits name
  | skip => exact refill_skip fits

end Filling

end Kivo.Engine.Store
