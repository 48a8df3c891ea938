import Kivo.Clib.Wire
import Kivo.Engine.Store

/-!
# The snapshot file

`snapshot.c` writes the eight tables as one stream of records and puts a
checksum behind it.  A record is the type code of its table, the expiry time,
and the key and the value with their lengths in front.  The reader checks the
checksum, walks over the records with one cursor, and stops for good at the
first record that breaks a limit.  The cursor is modelled by what is left of
the stream behind it.

What the operating system decides is an argument: whether the files can be
opened, written, renamed and mapped.
-/

namespace Kivo.Persistence.Snapshot

open Kivo.Clib.Memory
open Kivo.Clib.Wire
open Kivo.Engine.Data
open Kivo.Engine.KeyMap
open Kivo.Engine.ArrayEngine
open Kivo.Engine.HashEngine
open Kivo.Engine.RbtreeEngine
open Kivo.Engine.SkipEngine
open Kivo.Engine.SkipRuns (Level)
open Kivo.Engine.Store

/-! ## Records -/

/-- The type codes `SNAP_TYPE_*`. -/
def snapType : Table → Int
  | .array => 1
  | .rbtree => 2
  | .hash .hash => 3
  | .skip => 4
  | .hash .hash1 => 5
  | .hash .hash2 => 6
  | .hash .hash3 => 7
  | .hash .hash4 => 8

/-- The table of a type code; a code outside `1 .. 8` is invalid. -/
def tableOfType (type : Int) : Option Table :=
  if type = 1 then some .array
  else if type = 2 then some .rbtree
  else if type = 3 then some (.hash .hash)
  else if type = 5 then some (.hash .hash1)
  else if type = 6 then some (.hash .hash2)
  else if type = 7 then some (.hash .hash3)
  else if type = 8 then some (.hash .hash4)
  else if type = 4 then some .skip
  else none

/-- What every callback appends; `int` has four bytes, and of a `size_t` the
lower four are written. -/
def snapshotWriteCb (type : Int) (entry : Entry) : Bytes :=
  signedBytes 4 type ++
    (signedBytes 8 entry.expireTime ++
      (leBytes 4 entry.key.length ++
        (entry.key ++
          (leBytes 4 entry.value.length ++ entry.value))))

/-- `snapshot_write_array_cb`. -/
def snapshotWriteArrayCb : Entry → Bytes :=
  snapshotWriteCb 1

/-- `snapshot_write_rbtree_cb`. -/
def snapshotWriteRbtreeCb : Entry → Bytes :=
  snapshotWriteCb 2

/-- `snapshot_write_hash_cb`, with the type code of its context. -/
def snapshotWriteHashCb (type : Int) : Entry → Bytes :=
  snapshotWriteCb type

/-- `snapshot_write_skip_cb`. -/
def snapshotWriteSkipCb : Entry → Bytes :=
  snapshotWriteCb 4

/-- An entry with the table it belongs to. -/
structure SnapRecord where
  table : Table
  entry : Entry
deriving DecidableEq, Repr

/-- What is written for an entry of a table. -/
def SnapRecord.bytes (record : SnapRecord) : Bytes :=
  match record.table with
  | .array => snapshotWriteArrayCb record.entry
  | .rbtree => snapshotWriteRbtreeCb record.entry
  | .hash name => snapshotWriteHashCb (snapType (.hash name)) record.entry
  | .skip => snapshotWriteSkipCb record.entry

theorem SnapRecord.bytes_eq (record : SnapRecord) :
    record.bytes = snapshotWriteCb (snapType record.table) record.entry := by
  rw [SnapRecord.bytes]
  cases record.table <;> rfl

theorem tableOfType_snapType (table : Table) :
    tableOfType (snapType table) = some table := by
  cases table with
  | array => rfl
  | rbtree => rfl
  | hash name => cases name <;> rfl
  | skip => rfl

theorem snapType_bounds (table : Table) :
    -2 ^ 31 ≤ snapType table ∧ snapType table < 2 ^ 31 := by
  cases table with
  | array => decide
  | rbtree => decide
  | hash name => cases name <;> decide
  | skip => decide

/-! ## Saving -/

/-- `kvs_crc64`. -/
def kvsCrc64 (crc : UInt64) (buf : Bytes) : UInt64 :=
  buf.foldl (fun crc byte => (crc ^^^ byte.toUInt64) * 1099511628211)
    (if crc = 0 then 14695981039346656037 else crc)

/-- The entries that `kvs_snapshot_save` hands to the callback of a table, with
the tests in front of the walks; those of the hash tables are in
`snapshot_dump_one_hash`. -/
def snapshotWalk (enableTtl : Bool) (now : Int) (tables : Tables)
    (table : Table) : List Entry :=
  match table with
  | .array =>
      if 0 < tables.array.items.length then
        tables.foreach enableTtl now .array
      else []
  | .rbtree =>
      if tables.rbtree.root ≠ Kivo.Engine.RbtreeEngine.nil then
        tables.foreach enableTtl now .rbtree
      else []
  | .hash name =>
      if 0 < (tables.hashes name).count then
        tables.foreach enableTtl now (.hash name)
      else []
  | .skip =>
      if 0 < tables.skip.count ∧ tables.skip.forwardAt 0 header ≠ null then
        tables.foreach enableTtl now .skip
      else []

/-- The order in which the tables are written. -/
def savedTables : List Table :=
  [.array, .rbtree, .hash .hash, .hash .hash1, .hash .hash2, .hash .hash3,
    .hash .hash4, .skip]

/-- The records that are written. -/
def snapshotRecords (enableTtl : Bool) (now : Int) (tables : Tables) :
    List SnapRecord :=
  savedTables.flatMap (fun table =>
    (snapshotWalk enableTtl now tables table).map (SnapRecord.mk table))

/-- The stream of records, without the checksum. -/
def recordsBytes (records : List SnapRecord) : Bytes :=
  records.flatMap SnapRecord.bytes

/-- A stream with its checksum behind it. -/
def sealed (stream : Bytes) : Bytes :=
  stream ++ leBytes 8 (kvsCrc64 0 stream).toNat

/-- Which steps of `kvs_snapshot_save` succeed. -/
structure SaveLuck where
  opened : Bool
  allocated : Bool
  written : Bool
  renamed : Bool
deriving DecidableEq, Repr

/-- The file is written whole. -/
def SaveLuck.whole : SaveLuck :=
  { opened := true, allocated := true, written := true, renamed := true }

/-- `kvs_snapshot_save`: the content of `kvstore.snap` afterwards, and the
return value. -/
def kvsSnapshotSave (luck : SaveLuck) (enableTtl : Bool) (now : Int)
    (tables : Tables) (file : Option Bytes) : Option Bytes × Int :=
  if luck.opened && luck.allocated && luck.written && luck.renamed then
    (some (sealed (recordsBytes (snapshotRecords enableTtl now tables))), 0)
  else (file, -1)

/-! ## Loading -/

/-- The longest key that is read. -/
def keyLimit : Nat := 1024 * 1024

/-- The longest value that is read. -/
def valueLimit : Nat := 10 * 1024 * 1024

/--
One round of the loop of `kvs_snapshot_load` up to the test of the expiry time:
the record at the cursor and the stream behind it.  `none` says that the loop
ends, with or without a message.
-/
def readRecord (stream : Bytes) : Option (SnapRecord × Bytes) := do
  let (typeField, stream) ← takeBytes 4 stream
  let table ← tableOfType (toInt32 (leValue typeField))
  let (timeField, stream) ← takeBytes 8 stream
  let (keyField, stream) ← takeBytes 4 stream
  let keyLen := toInt32 (leValue keyField)
  if keyLen ≤ 0 ∨ (keyLimit : Int) < keyLen then none
  else
    let (key, stream) ← takeBytes keyLen.toNat stream
    let (valueField, stream) ← takeBytes 4 stream
    let valLen := toInt32 (leValue valueField)
    if valLen < 0 ∨ (valueLimit : Int) < valLen then none
    else
      let (value, stream) ← takeBytes valLen.toNat stream
      some
        ({ table := table
           entry :=
            { key := key
              value := value
              expireTime := toInt64 (leValue timeField) } }, stream)

/-- The variables of the loop. -/
structure LoadState where
  tables : Tables
  loadedCount : Nat
  expiredCleanupCount : Nat

/-- The rest of a round: drop an expired record or set it in its table. -/
def LoadState.accept (draw : Nat → Level) (now : Int) (state : LoadState)
    (record : SnapRecord) : LoadState :=
  if 0 < record.entry.expireTime ∧ record.entry.expireTime < now then
    { state with expiredCleanupCount := state.expiredCleanupCount + 1 }
  else
    { state with
      tables := state.tables.set (draw state.loadedCount) record.table
        record.entry
      loadedCount := state.loadedCount + 1 }

/-- The loop of `kvs_snapshot_load`; every round takes bytes from the stream,
so its length is enough fuel. -/
def loadLoop (draw : Nat → Level) (now : Int) :
    Nat → Bytes → LoadState → LoadState
  | 0, _, state => state
  | fuel + 1, stream, state =>
      match readRecord stream with
      | none => state
      | some (record, rest) =>
          loadLoop draw now fuel rest (state.accept draw now record)

/--
`kvs_snapshot_load` on the content of `kvstore.snap`; `mapped` says that `mmap`
succeeds, and `draw` what `random_level` draws for each record.
-/
def kvsSnapshotLoad (mapped : Bool) (draw : Nat → Level) (now : Int)
    (file : Option Bytes) (tables : Tables) : Tables × Int :=
  match file with
  | none => (tables, -1)
  | some content =>
      if content.length < 8 then (tables, -1)
      else if !mapped then (tables, -1)
      else
        let dataLimit := content.length - 8
        let stream := content.take dataLimit
        if (kvsCrc64 0 stream).toNat ≠ leValue (content.drop dataLimit) then
          (tables, -1)
        else
          ((loadLoop draw now stream.length stream
            { tables := tables
              loadedCount := 0
              expiredCleanupCount := 0 }).tables, 0)

/-! ## One record -/

/-- The limits that the reader puts on a record. -/
structure Within (entry : Entry) : Prop where
  keyLower : 1 ≤ entry.key.length
  keyUpper : entry.key.length ≤ keyLimit
  valueUpper : entry.value.length ≤ valueLimit

/-- The expiry time is a value of `int64_t`. -/
def Timed (entry : Entry) : Prop :=
  -2 ^ 63 ≤ entry.expireTime ∧ entry.expireTime < 2 ^ 63

section Limits

variable {entry : Entry} {keyLen valLen : Int}

theorem keyFine_of_within (within : Within entry)
    (same : keyLen = entry.key.length) :
    ¬ (keyLen ≤ 0 ∨ (keyLimit : Int) < keyLen) := by
  have lower := within.keyLower
  have upper := within.keyUpper
  omega

theorem valueFine_of_within (within : Within entry)
    (same : valLen = entry.value.length) :
    ¬ (valLen < 0 ∨ (valueLimit : Int) < valLen) := by
  have upper := within.valueUpper
  omega

theorem within_of_fine
    (keyLength : entry.key.length = keyLen.toNat)
    (keyFine : ¬ (keyLen ≤ 0 ∨ (keyLimit : Int) < keyLen))
    (valueLength : entry.value.length = valLen.toNat)
    (valueFine : ¬ (valLen < 0 ∨ (valueLimit : Int) < valLen)) :
    Within entry := by
  refine ⟨?_, ?_, ?_⟩
  · omega
  · omega
  · omega

end Limits

/-- The fields of a record that is read. -/
theorem readRecord_eq_some_iff {stream : Bytes} {record : SnapRecord}
    {rest : Bytes} :
    readRecord stream = some (record, rest) ↔
      ∃ typeField timeField keyField valueField s₁ s₂ s₃ s₄ s₅,
        takeBytes 4 stream = some (typeField, s₁) ∧
        tableOfType (toInt32 (leValue typeField)) = some record.table ∧
        takeBytes 8 s₁ = some (timeField, s₂) ∧
        takeBytes 4 s₂ = some (keyField, s₃) ∧
        ¬ (toInt32 (leValue keyField) ≤ 0 ∨
          (keyLimit : Int) < toInt32 (leValue keyField)) ∧
        takeBytes (toInt32 (leValue keyField)).toNat s₃ =
          some (record.entry.key, s₄) ∧
        takeBytes 4 s₄ = some (valueField, s₅) ∧
        ¬ (toInt32 (leValue valueField) < 0 ∨
          (valueLimit : Int) < toInt32 (leValue valueField)) ∧
        takeBytes (toInt32 (leValue valueField)).toNat s₅ =
          some (record.entry.value, rest) ∧
        record.entry.expireTime = toInt64 (leValue timeField) := by
  obtain ⟨table, key, value, expireTime⟩ := record
  simp only [readRecord, Option.bind_eq_bind, Option.bind_eq_some_iff,
    Prod.exists, Option.ite_none_left_eq_some, Option.some.injEq,
    Prod.mk.injEq, SnapRecord.mk.injEq, Entry.mk.injEq]
  constructor
  · rintro ⟨typeField, s₁, taken₁, other, typed, timeField, s₂, taken₂,
      keyField, s₃, taken₃, keyFine, key', s₄, taken₄, valueField, s₅,
      taken₅, valueFine, value', s₆, taken₆, ⟨rfl, rfl, rfl, time⟩, rfl⟩
    exact ⟨typeField, timeField, keyField, valueField, s₁, s₂, s₃, s₄, s₅,
      taken₁, typed, taken₂, taken₃, keyFine, taken₄, taken₅, valueFine,
      taken₆, time.symm⟩
  · rintro ⟨typeField, timeField, keyField, valueField, s₁, s₂, s₃, s₄, s₅,
      taken₁, typed, taken₂, taken₃, keyFine, taken₄, taken₅, valueFine,
      taken₆, time⟩
    exact ⟨typeField, s₁, taken₁, table, typed, timeField, s₂, taken₂,
      keyField, s₃, taken₃, keyFine, key, s₄, taken₄, valueField, s₅,
      taken₅, valueFine, value, rest, taken₆, ⟨rfl, rfl, rfl, time.symm⟩,
      rfl⟩

/-- A record within the limits is read back with the time that its field
holds. -/
theorem readRecord_bytes_time {record : SnapRecord}
    (within : Within record.entry) {time : Int}
    (cut : time = toInt64 (leValue (signedBytes 8 record.entry.expireTime)))
    (rest : Bytes) :
    readRecord (record.bytes ++ rest) =
      some
        ({ record with entry := { record.entry with expireTime := time } },
          rest) := by
  have keySmall : record.entry.key.length < 2 ^ 31 :=
    Nat.lt_of_le_of_lt within.keyUpper (by decide)
  have valueSmall : record.entry.value.length < 2 ^ 31 :=
    Nat.lt_of_le_of_lt within.valueUpper (by decide)
  have typed : tableOfType
      (toInt32 (leValue (signedBytes 4 (snapType record.table)))) =
      some record.table := by
    rw [toInt32_signedBytes (snapType_bounds _).1 (snapType_bounds _).2,
      tableOfType_snapType]
  have keyRead : ∀ after, takeBytes
      (toInt32 (leValue (leBytes 4 record.entry.key.length))).toNat
      (record.entry.key ++ after) = some (record.entry.key, after) := by
    intro after
    rw [toInt32_leBytes keySmall]
    exact takeBytes_append _ _ rfl
  have valueRead : ∀ after, takeBytes
      (toInt32 (leValue (leBytes 4 record.entry.value.length))).toNat
      (record.entry.value ++ after) = some (record.entry.value, after) := by
    intro after
    rw [toInt32_leBytes valueSmall]
    exact takeBytes_append _ _ rfl
  have keyFine := keyFine_of_within within (toInt32_leBytes keySmall)
  have valueFine := valueFine_of_within within (toInt32_leBytes valueSmall)
  rw [readRecord_eq_some_iff, SnapRecord.bytes_eq, snapshotWriteCb]
  simp only [List.append_assoc]
  exact ⟨_, _, _, _, _, _, _, _, _,
    takeBytes_append _ _ (signedBytes_length _ _), typed,
    takeBytes_append _ _ (signedBytes_length _ _),
    takeBytes_append _ _ (leBytes_length _ _), keyFine, keyRead _,
    takeBytes_append _ _ (leBytes_length _ _), valueFine, valueRead _, cut⟩

/-- A record as it is read back: the time is cut to 64 bits. -/
def SnapRecord.read (record : SnapRecord) : SnapRecord :=
  { record with
    entry := { record.entry with
      expireTime :=
        toInt64 (leValue (signedBytes 8 record.entry.expireTime)) } }

/-- Everything but the time is read back as it was. -/
theorem SnapRecord.read_fields (record : SnapRecord) :
    record.read.table = record.table ∧
      record.read.entry.key = record.entry.key ∧
        record.read.entry.value = record.entry.value := by
  obtain ⟨table, key, value, time⟩ := record
  rw [SnapRecord.read]
  generalize toInt64 _ = cut
  exact ⟨rfl, rfl, rfl⟩

theorem SnapRecord.read_eq {record : SnapRecord}
    (timed : Timed record.entry) : record.read = record := by
  rw [SnapRecord.read, toInt64_signedBytes timed.1 timed.2]

/-- A record within the limits is read back, with its time cut. -/
theorem readRecord_bytes_cut {record : SnapRecord}
    (within : Within record.entry) (rest : Bytes) :
    readRecord (record.bytes ++ rest) = some (record.read, rest) :=
  readRecord_bytes_time within rfl rest

/-- A record whose lengths are values of `int` is read back, with its time
cut, or stops the reader. -/
theorem readRecord_bytes_some {record found : SnapRecord}
    {rest behind : Bytes}
    (keySmall : record.entry.key.length < 2 ^ 31)
    (valueSmall : record.entry.value.length < 2 ^ 31)
    (read : readRecord (record.bytes ++ rest) = some (found, behind)) :
    found = record.read ∧ behind = rest := by
  have limits : ¬ ((record.entry.key.length : Int) ≤ 0 ∨
        (keyLimit : Int) < record.entry.key.length) ∧
      ¬ ((record.entry.value.length : Int) < 0 ∨
        (valueLimit : Int) < record.entry.value.length) := by
    rw [SnapRecord.bytes_eq, snapshotWriteCb] at read
    simp only [List.append_assoc] at read
    obtain ⟨_, _, keyField, valueField, _, _, _, _, _, taken₁, _, taken₂,
      taken₃, keyFine, taken₄, taken₅, valueFine, _, _⟩ :=
      readRecord_eq_some_iff.mp read
    rw [takeBytes_append _ _ (signedBytes_length _ _)] at taken₁
    cases taken₁
    rw [takeBytes_append _ _ (signedBytes_length _ _)] at taken₂
    cases taken₂
    rw [takeBytes_append _ _ (leBytes_length _ _)] at taken₃
    cases taken₃
    rw [toInt32_leBytes keySmall] at keyFine taken₄
    rw [takeBytes_append _ _ (Int.toNat_natCast _).symm] at taken₄
    obtain ⟨-, rfl⟩ := Prod.mk.inj (Option.some.inj taken₄)
    rw [takeBytes_append _ _ (leBytes_length _ _)] at taken₅
    cases taken₅
    rw [toInt32_leBytes valueSmall] at valueFine
    exact ⟨keyFine, valueFine⟩
  have within : Within record.entry :=
    within_of_fine rfl limits.1 rfl limits.2
  rw [readRecord_bytes_cut within] at read
  exact (Prod.mk.inj (Option.some.inj read)).imp Eq.symm Eq.symm

/-- What is read keeps the limits and is shorter than the stream. -/
theorem readRecord_within {stream rest : Bytes} {record : SnapRecord}
    (read : readRecord stream = some (record, rest)) :
    Within record.entry ∧ rest.length < stream.length := by
  obtain ⟨typeField, timeField, keyField, valueField, s₁, s₂, s₃, s₄, s₅,
    taken₁, _, taken₂, taken₃, keyFine, taken₄, taken₅, valueFine, taken₆,
    _⟩ := readRecord_eq_some_iff.mp read
  obtain ⟨rfl, typeLength⟩ := takeBytes_eq_some taken₁
  obtain ⟨rfl, _⟩ := takeBytes_eq_some taken₂
  obtain ⟨rfl, _⟩ := takeBytes_eq_some taken₃
  obtain ⟨rfl, keyLength⟩ := takeBytes_eq_some taken₄
  obtain ⟨rfl, _⟩ := takeBytes_eq_some taken₅
  obtain ⟨rfl, valueLength⟩ := takeBytes_eq_some taken₆
  refine ⟨within_of_fine keyLength keyFine valueLength valueFine, ?_⟩
  clear keyLength keyFine valueLength valueFine
  simp only [List.length_append, typeLength]
  omega

end Kivo.Persistence.Snapshot
