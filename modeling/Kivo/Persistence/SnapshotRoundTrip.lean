import Kivo.Persistence.Snapshot

/-!
# What a snapshot preserves

Saving emits the entries that are not expired, and loading sets every record it
reads and does not drop as expired.  A stream of records within the limits is
read to its end, so the tables that are loaded hold the entries that were
saved.  Every other record stops the reader or is dropped; without TTL the
array is not written at all, and a skip list whose counter has wrapped to
something negative is not written either.
-/

namespace Kivo.Persistence.SnapshotRoundTrip

open Kivo.Clib.Memory
open Kivo.Clib.Simulation
open Kivo.Clib.Wire
open Kivo.Engine.Data
open Kivo.Engine.KeyMap
open Kivo.Engine.ArrayEngine (kvsArrayCreate kvsArraySize)
open Kivo.Engine.ArrayRuns (arrayStep)
open Kivo.Engine.HashEngine (kvsHashCreate)
open Kivo.Engine.HashRuns (hashStep)
open Kivo.Engine.HashTable (slotLimit)
open Kivo.Engine.RbtreeEngine (kvsRbtreeCreate)
open Kivo.Engine.RbtreeRuns (rbtreeStep)
open Kivo.Engine.SkipEngine (kvsSkipCreate)
open Kivo.Engine.SkipRuns (Level skipStep)
open Kivo.Engine.Store
open Kivo.Persistence.Snapshot

/-! ## Reading a stream of records -/

/-- The records that the loop reads before it stops. -/
def scanRecords : Nat → Bytes → List SnapRecord
  | 0, _ => []
  | fuel + 1, stream =>
      match readRecord stream with
      | none => []
      | some (record, rest) => record :: scanRecords fuel rest

/-- Everything that is read keeps the limits. -/
theorem within_of_mem_scanRecords {fuel : Nat} {stream : Bytes}
    {record : SnapRecord} (member : record ∈ scanRecords fuel stream) :
    Within record.entry := by
  induction fuel generalizing stream with
  | zero => exact absurd member List.not_mem_nil
  | succ fuel induction =>
      rw [scanRecords] at member
      cases read : readRecord stream with
      | none =>
          rw [read] at member
          exact absurd member List.not_mem_nil
      | some found =>
          rw [read] at member
          rcases List.mem_cons.mp member with rfl | later
          · exact (readRecord_within read).1
          · exact induction later

/-- Records within the limits are read to the last one, with their times
cut. -/
theorem scanRecords_bytes_cut {records : List SnapRecord}
    (within : ∀ record ∈ records, Within record.entry) {fuel : Nat}
    (enough : records.length ≤ fuel) :
    scanRecords fuel (recordsBytes records) =
      records.map SnapRecord.read := by
  induction records generalizing fuel with
  | nil => cases fuel <;> rfl
  | cons record rest induction =>
      cases fuel with
      | zero => exact absurd enough (Nat.not_succ_le_zero _)
      | succ fuel =>
          have read := readRecord_bytes_cut
            (within record List.mem_cons_self) (recordsBytes rest)
          have tail := induction
            (fun other member => within other (List.mem_cons_of_mem _ member))
            (Nat.le_of_succ_le_succ enough)
          rw [recordsBytes, List.flatMap_cons, scanRecords]
          rw [recordsBytes] at read tail
          rw [read]
          dsimp only
          rw [tail, List.map_cons]

/-- Records within the limits are read to the last one. -/
theorem scanRecords_bytes {records : List SnapRecord}
    (within : ∀ record ∈ records, Within record.entry)
    (timed : ∀ record ∈ records, Timed record.entry) {fuel : Nat}
    (enough : records.length ≤ fuel) :
    scanRecords fuel (recordsBytes records) = records := by
  have same : records.map SnapRecord.read = records.map id :=
    List.map_congr_left
      (fun record member => SnapRecord.read_eq (timed record member))
  rw [scanRecords_bytes_cut within enough, same, List.map_id]

/-- Whatever is read of records whose lengths are values of `int` is one of
them, with its time cut. -/
theorem mem_scanRecords_bytes {records : List SnapRecord}
    (small : ∀ record ∈ records, record.entry.key.length < 2 ^ 31 ∧
      record.entry.value.length < 2 ^ 31)
    {fuel : Nat} {found : SnapRecord}
    (member : found ∈ scanRecords fuel (recordsBytes records)) :
    ∃ record ∈ records, found = record.read := by
  induction records generalizing fuel with
  | nil =>
      cases fuel with
      | zero => cases member
      | succ fuel => cases member
  | cons record rest induction =>
      cases fuel with
      | zero => cases member
      | succ fuel =>
          have frame : recordsBytes (record :: rest) =
              record.bytes ++ recordsBytes rest := rfl
          rw [frame, scanRecords] at member
          cases read : readRecord (record.bytes ++ recordsBytes rest) with
          | none =>
              rw [read] at member
              cases member
          | some result =>
              obtain ⟨first, behind⟩ := result
              obtain ⟨keySmall, valueSmall⟩ :=
                small record List.mem_cons_self
              obtain ⟨rfl, rfl⟩ :=
                readRecord_bytes_some keySmall valueSmall read
              rw [read, List.mem_cons] at member
              rcases member with rfl | later
              · exact ⟨record, List.mem_cons_self, rfl⟩
              · obtain ⟨origin, inside, same⟩ := induction
                  (fun other member =>
                    small other (List.mem_cons_of_mem _ member)) later
                exact ⟨origin, List.mem_cons_of_mem _ inside, same⟩

/-- Every record takes some bytes. -/
theorem length_le_recordsBytes (records : List SnapRecord) :
    records.length ≤ (recordsBytes records).length := by
  induction records with
  | nil => exact Nat.le_refl _
  | cons record rest induction =>
      have some_bytes : 4 ≤ record.bytes.length := by
        rw [SnapRecord.bytes_eq, snapshotWriteCb, List.length_append,
          signedBytes_length]
        exact Nat.le_add_right _ _
      rw [recordsBytes, List.flatMap_cons, List.length_append,
        List.length_cons]
      rw [recordsBytes] at induction
      omega

/-! ## Setting the records -/

/-- The records that are read and not dropped as expired. -/
def acceptedRecords (now : Int) (stream : Bytes) : List SnapRecord :=
  (scanRecords stream.length stream).filter (fun record =>
    ¬ Expired true now record.entry.expireTime)

/-- The calls that set some records, with the levels drawn for them. -/
def setCalls (draw : Nat → Level) : Nat → List SnapRecord → List SetCall
  | _, [] => []
  | count, record :: rest =>
      { level := draw count, table := record.table, entry := record.entry } ::
        setCalls draw (count + 1) rest

/-- The entries of some records that belong to a table. -/
def entriesIn (table : Table) (records : List SnapRecord) : List Entry :=
  (records.filter (fun record => decide (record.table = table))).map
    SnapRecord.entry

theorem entriesOf_setCalls (draw : Nat → Level) (count : Nat)
    (records : List SnapRecord) (table : Table) :
    entriesOf table (setCalls draw count records) =
      entriesIn table records := by
  induction records generalizing count with
  | nil => rfl
  | cons record rest induction =>
      have tail := induction (count + 1)
      rw [entriesOf, callsOf, entriesIn] at tail ⊢
      rw [setCalls, List.filter_cons, List.filter_cons]
      dsimp only
      split_ifs with here
      · rw [List.map_cons, List.map_cons, tail]
      · exact tail

/-- The loop sets the records that it reads and does not drop. -/
theorem loadLoop_tables (draw : Nat → Level) (now : Int) (fuel : Nat)
    (stream : Bytes) (state : LoadState) :
    (loadLoop draw now fuel stream state).tables =
      (setCalls draw state.loadedCount
        ((scanRecords fuel stream).filter (fun record =>
          ¬ Expired true now record.entry.expireTime))).foldl
        Tables.call state.tables := by
  induction fuel generalizing stream state with
  | zero => rfl
  | succ fuel induction =>
      rw [loadLoop, scanRecords]
      cases read : readRecord stream with
      | none => rfl
      | some found =>
          obtain ⟨record, rest⟩ := found
          dsimp only
          rw [induction, LoadState.accept, List.filter_cons]
          by_cases late : 0 < record.entry.expireTime ∧
              record.entry.expireTime < now
          · rw [if_pos late, if_neg (by simp [Expired, late])]
          · have timely : ¬ Expired true now record.entry.expireTime :=
              fun expired => late expired.2
            rw [if_neg late, if_pos (decide_eq_true timely)]
            rfl

/-- The parts of a sealed stream. -/
theorem sealed_parts (stream : Bytes) :
    (sealed stream).length = stream.length + 8 ∧
      (sealed stream).take stream.length = stream ∧
        leValue ((sealed stream).drop stream.length) =
          (kvsCrc64 0 stream).toNat := by
  refine ⟨?_, List.take_left' rfl, ?_⟩
  · rw [sealed, List.length_append, leBytes_length]
  · have behind : (sealed stream).drop stream.length =
        leBytes 8 (kvsCrc64 0 stream).toNat :=
      List.drop_left' rfl
    rw [behind, leValue_leBytes]
    exact Nat.mod_eq_of_lt (UInt64.toNat_lt _)

/-- The checksum of a sealed stream is the stored one. -/
theorem kvsSnapshotLoad_sealed (draw : Nat → Level) (now : Int)
    (stream : Bytes) (tables : Tables) :
    kvsSnapshotLoad true draw now (some (sealed stream)) tables =
      ((setCalls draw 0 (acceptedRecords now stream)).foldl Tables.call tables,
        0) := by
  obtain ⟨length, front, sum⟩ := sealed_parts stream
  rw [kvsSnapshotLoad, length, Nat.add_sub_cancel]
  dsimp only
  rw [front, sum, if_neg (by omega), if_neg (by simp), if_neg (by simp),
    loadLoop_tables, acceptedRecords]

/-! ## What is written -/

section Saving

variable {tables : Tables}

/-- The tests in front of the walks skip empty tables and a skip list whose
counter is not positive. -/
theorem snapshotWalk_eq (valid : Valid tables) (enableTtl : Bool)
    (now : Int) (table : Table) :
    snapshotWalk enableTtl now tables table =
      if table = .skip ∧ tables.skip.count ≤ 0 then []
      else tables.foreach enableTtl now table := by
  cases table with
  | array =>
      rw [if_neg (fun skipped => nomatch skipped.1), snapshotWalk]
      split_ifs with some_item
      · rfl
      · have none : tables.array.items = [] :=
          List.eq_nil_of_length_eq_zero (Nat.eq_zero_of_not_pos some_item)
        rw [Tables.foreach, Engine.ArrayEngine.kvsArrayForeach, none]
        cases enableTtl <;> rfl
  | rbtree =>
      rw [if_neg (fun skipped => nomatch skipped.1), snapshotWalk]
      split_ifs with some_node
      · rfl
      · rw [Tables.foreach, Engine.RbtreeEngine.kvsRbtreeForeach,
          not_not.mp some_node]
        cases tables.rbtree.next <;> rfl
  | hash name =>
      rw [if_neg (fun skipped => nomatch skipped.1), snapshotWalk]
      split_ifs with some_node
      · rfl
      · have ok := valid.hashes name
        have none : Engine.HashTable.nodes (tables.hashes name) = [] := by
          apply List.eq_nil_of_length_eq_zero
          have count := ok.count
          omega
        rw [Tables.foreach, Engine.HashRuns.kvsHashForeach_eq,
          Engine.HashTable.entries, none]
        rfl
  | skip =>
      by_cases counted : tables.skip.count ≤ 0
      · rw [if_pos ⟨rfl, counted⟩, snapshotWalk,
          if_neg (fun tested => Int.not_lt.mpr counted tested.1)]
      · rw [if_neg (fun skipped => counted skipped.2), snapshotWalk]
        split_ifs with some_node
        · rfl
        · have last : tables.skip.forwardAt 0 Engine.SkipEngine.header =
              Engine.SkipEngine.null := by
            by_contra further
            exact some_node ⟨Int.not_le.mp counted, further⟩
          rw [Tables.foreach, Engine.SkipEngine.kvsSkipForeach, last]
          cases tables.skip.next <;> rfl

/-- The records of a table are the entries that its walk hands over. -/
theorem entriesIn_snapshotRecords (enableTtl : Bool) (now : Int)
    (table : Table) :
    entriesIn table (snapshotRecords enableTtl now tables) =
      snapshotWalk enableTtl now tables table := by
  have part : ∀ other,
      (((snapshotWalk enableTtl now tables other).map
        (SnapRecord.mk other)).filter
          (fun record => decide (record.table = table))).map
        SnapRecord.entry =
        if other = table then snapshotWalk enableTtl now tables table
        else [] := by
    intro other
    split_ifs with same
    · subst same
      simp [List.filter_map, Function.comp_def]
    · simp [List.filter_map, Function.comp_def, same]
  rw [entriesIn, snapshotRecords, List.filter_flatMap, List.map_flatMap]
  simp only [part, savedTables, List.flatMap_cons, List.flatMap_nil]
  cases table with
  | array => simp
  | rbtree => simp
  | hash name => cases name <;> simp
  | skip => simp

/-- A record is written when the walk of its table hands its entry over. -/
theorem mem_snapshotRecords {enableTtl : Bool} {now : Int}
    {record : SnapRecord} :
    record ∈ snapshotRecords enableTtl now tables ↔
      record.entry ∈ snapshotWalk enableTtl now tables record.table := by
  rw [← entriesIn_snapshotRecords, entriesIn, List.mem_map]
  constructor
  · intro member
    exact ⟨record, List.mem_filter.mpr ⟨member, decide_eq_true rfl⟩, rfl⟩
  · rintro ⟨other, member, same⟩
    obtain ⟨inside, here⟩ := List.mem_filter.mp member
    have equal : other = record := by
      obtain ⟨table, entry⟩ := other
      obtain ⟨table', entry'⟩ := record
      rw [SnapRecord.mk.injEq]
      exact ⟨of_decide_eq_true here, same⟩
    rw [← equal]
    exact inside

/-- The entries of a table are written at all: those of the array only with
TTL, those of the skip list only while its counter is positive. -/
def Walked (enableTtl : Bool) (tables : Tables) (table : Table) : Prop :=
  (table = .array → enableTtl = true) ∧
    (table = .skip → 0 < tables.skip.count)

/-- What is written of a table. -/
theorem mem_snapshotWalk (valid : Valid tables) {enableTtl : Bool}
    {now : Int} {table : Table} {entry : Entry} :
    entry ∈ snapshotWalk enableTtl now tables table ↔
      Walked enableTtl tables table ∧ entry ∈ tables.keyed table ∧
        ¬ Expired enableTtl now entry.expireTime := by
  rw [snapshotWalk_eq valid, Walked]
  by_cases wrapped : table = .skip ∧ tables.skip.count ≤ 0
  · rw [if_pos wrapped]
    refine iff_of_false List.not_mem_nil ?_
    rintro ⟨⟨-, counted⟩, -⟩
    exact Int.not_lt.mpr wrapped.2 (counted wrapped.1)
  · rw [if_neg wrapped, valid.foreach_eq]
    have counted : table = .skip → 0 < tables.skip.count :=
      fun same => Int.not_le.mp (fun low => wrapped ⟨same, low⟩)
    split_ifs with skipped
    · refine iff_of_false List.not_mem_nil ?_
      rintro ⟨⟨needed, -⟩, -⟩
      rw [needed skipped.1] at skipped
      cases skipped.2
    · rw [mem_unexpired]
      refine (and_iff_right ⟨?_, counted⟩).symm
      intro same
      by_contra without
      exact skipped ⟨same, Bool.eq_false_iff.mpr without⟩

/-- Only entries of slots with a key are written. -/
theorem snapshotWalk_sublist (valid : Valid tables) (enableTtl : Bool)
    (now : Int) (table : Table) :
    (snapshotWalk enableTtl now tables table).Sublist
      (tables.keyed table) := by
  rw [snapshotWalk_eq valid, valid.foreach_eq]
  split_ifs
  · exact List.nil_sublist _
  · exact List.nil_sublist _
  · exact List.filter_sublist

/-- A table is no larger than its engine allows. -/
theorem snapshotWalk_length (valid : Valid tables) (enableTtl : Bool)
    (now : Int) :
    (snapshotWalk enableTtl now tables .array).length ≤ kvsArraySize ∧
      ∀ name,
        (snapshotWalk enableTtl now tables (.hash name)).length ≤
          slotLimit := by
  constructor
  · refine
      (snapshotWalk_sublist valid enableTtl now .array).length_le.trans ?_
    rw [Tables.keyed, Engine.ArrayRuns.entries, List.length_map]
    exact valid.array.keyedPart_ok.bounded
  · intro name
    refine
      (snapshotWalk_sublist valid enableTtl now (.hash name)).length_le.trans
        ?_
    have ok := valid.hashes name
    rw [Tables.keyed, Tables.entries, Engine.HashTable.entries,
      List.length_map]
    · exact ok.load.trans ok.most
    · intro same
      cases same

end Saving

/-! ## Saving and loading -/

section RoundTrip

variable {tables : Tables} {enableTtl : Bool} {saved : Int}

/-- The entries of a table among the records that are not dropped. -/
theorem entriesIn_filter (now : Int) (records : List SnapRecord)
    (table : Table) :
    entriesIn table (records.filter (fun record =>
        ¬ Expired true now record.entry.expireTime)) =
      unexpired true now (entriesIn table records) := by
  rw [entriesIn, entriesIn, unexpired, List.filter_map, List.filter_filter,
    List.filter_filter]
  congr 1
  apply List.filter_congr
  intro record _
  exact Bool.and_comm _ _

/-- Records within the limits are read to the last one, and those that are not
dropped fit fresh tables. -/
theorem acceptedRecords_saved (valid : Valid tables)
    (within : ∀ record ∈ snapshotRecords enableTtl saved tables,
      Within record.entry)
    (timed : ∀ record ∈ snapshotRecords enableTtl saved tables,
      Timed record.entry) (now : Int) (draw : Nat → Level) :
    acceptedRecords now
        (recordsBytes (snapshotRecords enableTtl saved tables)) =
        (snapshotRecords enableTtl saved tables).filter (fun record =>
          ¬ Expired true now record.entry.expireTime) ∧
      Fits (setCalls draw 0
        ((snapshotRecords enableTtl saved tables).filter (fun record =>
          ¬ Expired true now record.entry.expireTime))) := by
  have entries : ∀ table, entriesOf table (setCalls draw 0
      ((snapshotRecords enableTtl saved tables).filter (fun record =>
        ¬ Expired true now record.entry.expireTime))) =
      unexpired true now (snapshotWalk enableTtl saved tables table) := by
    intro table
    rw [entriesOf_setCalls, entriesIn_filter, entriesIn_snapshotRecords]
  have room : ∀ table, (callsOf table (setCalls draw 0
      ((snapshotRecords enableTtl saved tables).filter (fun record =>
        ¬ Expired true now record.entry.expireTime)))).length ≤
      (snapshotWalk enableTtl saved tables table).length := by
    intro table
    have length := congrArg List.length (entries table)
    rw [entriesOf, List.length_map] at length
    rw [length]
    exact List.length_filter_le _ _
  constructor
  · rw [acceptedRecords, scanRecords_bytes within timed
      (length_le_recordsBytes _)]
  · refine ⟨?_, ?_, ?_, ?_⟩
    · intro table
      rw [entries]
      exact (valid.distinct table).sublist
        ((List.filter_sublist.trans
          (snapshotWalk_sublist valid enableTtl saved table)).map _)
    · intro entry member
      rw [entries] at member
      have visited := (mem_unexpired.mp member).1
      have record := within { table := .array, entry := entry }
        (mem_snapshotRecords.mpr visited)
      exact List.ne_nil_of_length_pos record.keyLower
    · exact (room .array).trans (snapshotWalk_length valid enableTtl saved).1
    · intro name
      exact (room (.hash name)).trans
        ((snapshotWalk_length valid enableTtl saved).2 name)

/-- Fresh tables that are loaded hold what was written and has not expired. -/
theorem kvsSnapshotLoad_saved (valid : Valid tables)
    (within : ∀ record ∈ snapshotRecords enableTtl saved tables,
      Within record.entry)
    (timed : ∀ record ∈ snapshotRecords enableTtl saved tables,
      Timed record.entry) (now : Int) (draw : Nat → Level) :
    ∃ loaded,
      kvsSnapshotLoad true draw now
          (some (sealed
            (recordsBytes (snapshotRecords enableTtl saved tables))))
          Tables.create = (loaded, 0) ∧
        ∀ table,
          ((loaded.entries table).map Entry.key).Nodup ∧
            ∀ entry, entry ∈ loaded.entries table ↔
              entry ∈ snapshotWalk enableTtl saved tables table ∧
                ¬ Expired true now entry.expireTime := by
  obtain ⟨accepted, fits⟩ :=
    acceptedRecords_saved valid within timed now draw
  refine ⟨_, kvsSnapshotLoad_sealed draw now _ Tables.create, ?_⟩
  intro table
  have holds := refill fits table
  rw [accepted]
  refine ⟨holds.1, ?_⟩
  intro entry
  rw [holds.mem_iff (fits.distinct table), entriesOf_setCalls,
    entriesIn_filter, entriesIn_snapshotRecords, mem_unexpired]

/-- The slots of an array without empty keys all have a key. -/
theorem keyed_eq_entries (table : Table)
    (proper : ∀ entry ∈ tables.entries table, 1 ≤ entry.key.length) :
    tables.keyed table = tables.entries table := by
  cases table with
  | array =>
      rw [Tables.keyed, Tables.entries, Engine.ArrayRuns.keyedPart,
        List.filter_eq_self.mpr]
      intro slot member
      have some_byte := proper slot.entry (List.mem_map_of_mem member)
      cases here : slot.key with
      | none =>
          rw [Engine.ArrayEngine.ArrayItem.entry, here] at some_byte
          exact absurd some_byte (Nat.not_succ_le_zero 0)
      | some key => rfl
  | rbtree => rfl
  | hash name => rfl
  | skip => rfl

end RoundTrip

/--
Saving with TTL at one time and loading into fresh tables at another one: every
table then holds exactly its entries that are expired at neither time, each
once.
-/
def RoundTrips (tables : Tables) (saved loaded : Int) (draw : Nat → Level)
    (file : Option Bytes) : Prop :=
  ∃ content after,
    kvsSnapshotSave SaveLuck.whole true saved tables file =
        (some content, 0) ∧
      kvsSnapshotLoad true draw loaded (some content) Tables.create =
        (after, 0) ∧
      ∀ table,
        ((after.entries table).map Entry.key).Nodup ∧
          ∀ entry, entry ∈ after.entries table ↔
            entry ∈ tables.entries table ∧
              ¬ Expired true saved entry.expireTime ∧
              ¬ Expired true loaded entry.expireTime

section Surviving

variable {tables : Tables} (reachable : Reachable true tables)
  (within : ∀ table, ∀ entry ∈ tables.entries table, Within entry)
  {saved loaded : Int} {draw : Nat → Level} {file : Option Bytes}

include within in
/-- What is written of a table without empty keys. -/
theorem mem_snapshotWalk_entries (valid : Valid tables) {table : Table}
    {entry : Entry} :
    entry ∈ snapshotWalk true saved tables table ↔
      Walked true tables table ∧ entry ∈ tables.entries table ∧
        ¬ Expired true saved entry.expireTime := by
  rw [mem_snapshotWalk valid, keyed_eq_entries table
    (fun entry member => (within table entry member).keyLower)]

include reachable within

/-- The load returns with everything that was written and has not expired. -/
theorem exists_loaded (saved loaded : Int) (draw : Nat → Level) :
    ∃ after,
      kvsSnapshotLoad true draw loaded
          (some (sealed (recordsBytes (snapshotRecords true saved tables))))
          Tables.create = (after, 0) ∧
        ∀ table, ((after.entries table).map Entry.key).Nodup ∧
          ∀ entry, entry ∈ after.entries table ↔
            (Walked true tables table ∧ entry ∈ tables.entries table ∧
              ¬ Expired true saved entry.expireTime) ∧
              ¬ Expired true loaded entry.expireTime := by
  have valid := reachable.valid
  have inside : ∀ record ∈ snapshotRecords true saved tables,
      record.entry ∈ tables.entries record.table := by
    intro record member
    exact ((mem_snapshotWalk_entries within valid).mp
      (mem_snapshotRecords.mp member)).2.1
  obtain ⟨after, run, holds⟩ := kvsSnapshotLoad_saved valid
    (fun record member => within _ _ (inside record member))
    (fun record member => reachable.times _ _ (inside record member))
    loaded draw
  refine ⟨after, run, fun table => ⟨(holds table).1, fun entry => ?_⟩⟩
  rw [(holds table).2, mem_snapshotWalk_entries within valid]

theorem RoundTrips.counted
    (trips : RoundTrips tables saved loaded draw file) :
    0 < tables.skip.count ∨ ∀ entry ∈ tables.entries .skip,
      Expired true saved entry.expireTime ∨
        Expired true loaded entry.expireTime := by
  obtain ⟨content, other, save, load, exact⟩ := trips
  obtain ⟨after, run, holds⟩ :=
    exists_loaded reachable within saved loaded draw
  obtain ⟨same, -⟩ := Prod.mk.inj save
  rw [← Option.some.inj same, run] at load
  obtain ⟨rfl, -⟩ := Prod.mk.inj load
  by_contra neither
  obtain ⟨wrapped, kept⟩ := not_or.mp neither
  push Not at kept
  obtain ⟨entry, member, timely⟩ := kept
  have there := ((exact .skip).2 entry).mpr ⟨member, timely⟩
  exact wrapped ((((holds .skip).2 entry).mp there).1.1.2 rfl)

theorem roundTrips_of_counted
    (counted : 0 < tables.skip.count ∨ ∀ entry ∈ tables.entries .skip,
      Expired true saved entry.expireTime ∨
        Expired true loaded entry.expireTime) :
    RoundTrips tables saved loaded draw file := by
  obtain ⟨after, run, holds⟩ :=
    exists_loaded reachable within saved loaded draw
  refine ⟨_, after, rfl, run, fun table => ⟨(holds table).1, fun entry => ?_⟩⟩
  rw [(holds table).2, and_assoc, and_assoc]
  constructor
  · rintro ⟨-, kept⟩
    exact kept
  · intro kept
    refine ⟨⟨fun _ => rfl, ?_⟩, kept⟩
    rintro rfl
    rcases counted with positive | gone
    · exact positive
    · exact absurd (gone entry kept.1) (not_or.mpr kept.2)

end Surviving

/--
Tables whose keys and values keep the limits of the reader survive a round trip
exactly when the counter of the skip list is positive, or none of its entries
is to survive.
-/
theorem snapshot_roundTrip {tables : Tables} (reachable : Reachable true tables)
    (within : ∀ table, ∀ entry ∈ tables.entries table, Within entry)
    (saved loaded : Int) (draw : Nat → Level) (file : Option Bytes) :
    RoundTrips tables saved loaded draw file ↔
      0 < tables.skip.count ∨ ∀ entry ∈ tables.entries .skip,
        Expired true saved entry.expireTime ∨
          Expired true loaded entry.expireTime :=
  ⟨RoundTrips.counted reachable within,
    roundTrips_of_counted reachable within⟩

/-- Some keys in the array, the tree, one hash table and the skip list. -/
def fewEntries : Table → List Entry
  | .array =>
      [{ key := ascii "k", value := ascii "v", expireTime := 5 },
        { key := ascii "l", value := ascii "w", expireTime := 0 }]
  | .rbtree =>
      [{ key := ascii "a", value := ascii "b", expireTime := 0 },
        { key := ascii "c", value := [], expireTime := 9 }]
  | .hash .hash2 =>
      [{ key := ascii "e", value := ascii "f", expireTime := 0 }]
  | .hash _ => []
  | .skip =>
      [{ key := ascii "g", value := ascii "h", expireTime := 0 },
        { key := ascii "i", value := ascii "j", expireTime := 5 }]

/-- The calls that store the entries of a table. -/
def fewCalls (table : Table) : List Operation :=
  (fewEntries table).map
    (fun entry => .set entry.key entry.value entry.expireTime)

/-- Fresh tables behind these calls. -/
def fewKeys (enableTtl : Bool) : Tables :=
  { array := (run (arrayStep enableTtl) kvsArrayCreate (fewCalls .array)).1
    rbtree :=
      (run (rbtreeStep enableTtl) kvsRbtreeCreate (fewCalls .rbtree)).1
    hashes := fun name =>
      (run (hashStep enableTtl) kvsHashCreate
        ((fewCalls (.hash name)).map (fun call => (call, false)))).1
    skip :=
      (run (skipStep enableTtl) kvsSkipCreate
        ((fewCalls .skip).map (fun call => (call, 2)))).1 }

theorem fewKeys_entries (enableTtl : Bool) (table : Table) :
    (fewKeys enableTtl).entries table = fewEntries table := by
  cases table with
  | array => cases enableTtl <;> decide +kernel
  | rbtree => cases enableTtl <;> decide +kernel
  | hash name => cases enableTtl <;> cases name <;> decide +kernel
  | skip => cases enableTtl <;> decide +kernel

theorem fewEntries_within (table : Table) :
    ∀ entry ∈ fewEntries table, Within entry ∧ Timed entry := by
  have bounds : ∀ entry ∈ fewEntries table,
      (1 ≤ entry.key.length ∧ entry.key.length ≤ 1 ∧
        entry.value.length ≤ 1) ∧ 0 ≤ entry.expireTime ∧
        entry.expireTime ≤ 9 := by
    cases table with
    | array => decide
    | rbtree => decide
    | hash name => cases name <;> decide
    | skip => decide
  intro entry member
  obtain ⟨⟨some_byte, key, value⟩, nonnegative, early⟩ := bounds entry member
  exact ⟨⟨some_byte, key.trans (by decide), value.trans (by decide)⟩,
    by omega, by omega⟩

theorem fewKeys_reachable (enableTtl : Bool) :
    Reachable enableTtl (fewKeys enableTtl) := by
  refine ⟨⟨fewCalls .array, rfl⟩, ⟨fewCalls .rbtree, by rw [fewKeys]⟩,
    fun name => ⟨(fewCalls (.hash name)).map (fun call => (call, false)), rfl⟩,
    ⟨(fewCalls .skip).map (fun call => (call, 2)), by rw [fewKeys]⟩, ?_⟩
  intro table entry member
  rw [fewKeys_entries] at member
  exact (fewEntries_within table entry member).2

/-- Of the keys in several tables those that expire between saving and loading
are gone. -/
theorem snapshot_roundTrip_expiring :
    ∃ content after,
      kvsSnapshotSave SaveLuck.whole true 4 (fewKeys true) none =
          (some content, 0) ∧
        kvsSnapshotLoad true (fun _ => 0) 6 (some content) Tables.create =
          (after, 0) ∧
        ∀ table entry, entry ∈ after.entries table ↔
          entry ∈ fewEntries table ∧ entry.expireTime ≠ 5 := by
  have within : ∀ table, ∀ entry ∈ (fewKeys true).entries table,
      Within entry := by
    intro table entry member
    rw [fewKeys_entries] at member
    exact (fewEntries_within table entry member).1
  obtain ⟨content, after, saved, loaded, holds⟩ :=
    (snapshot_roundTrip (fewKeys_reachable true) within 4 6 (fun _ => 0)
      none).mpr (Or.inl (by decide +kernel))
  refine ⟨content, after, saved, loaded, fun table entry => ?_⟩
  rw [(holds table).2, fewKeys_entries]
  have times : ∀ entry ∈ fewEntries table,
      (¬ Expired true 4 entry.expireTime ∧
        ¬ Expired true 6 entry.expireTime ↔ entry.expireTime ≠ 5) := by
    cases table with
    | array => decide
    | rbtree => decide
    | hash name => cases name <;> decide
    | skip => decide
  exact and_congr_right (times entry)

/-- Fresh tables with a number of keys in the skip list. -/
def crowdedTables (number : Nat) : Tables :=
  { Tables.create with
    skip := (run (skipStep true) kvsSkipCreate
      (Engine.SkipRuns.fillInputs number)).1 }

section Crowded

variable {number : Nat} (small : number < 2 ^ 32)

include small

theorem crowdedTables_filled :
    Engine.SkipRuns.Filled (crowdedTables number).skip number :=
  Engine.SkipRuns.filled_run true small

theorem crowdedTables_limits (table : Table) :
    ∀ entry ∈ (crowdedTables number).entries table,
      Within entry ∧ Timed entry ∧ entry.expireTime = 0 := by
  intro entry member
  cases table with
  | array => exact absurd member List.not_mem_nil
  | rbtree =>
      rw [show (crowdedTables number).entries .rbtree = [] from
        Engine.RbtreeOrder.entries_create] at member
      exact absurd member List.not_mem_nil
  | hash name => exact absurd member List.not_mem_nil
  | skip =>
      obtain ⟨index, -, rfl⟩ :=
        (crowdedTables_filled small).stored entry member
      have four : (serialKey index).length = 4 := rfl
      exact ⟨⟨by rw [four]; decide, by rw [four]; decide, Nat.zero_le _⟩,
        by simp [Timed], rfl⟩

theorem crowdedTables_reachable : Reachable true (crowdedTables number) := by
  refine ⟨⟨[], rfl⟩, ⟨[], rfl⟩, fun _ => ⟨[], rfl⟩, ?_, ?_⟩
  · exact ⟨Engine.SkipRuns.fillInputs number, rfl⟩
  · exact fun table entry member =>
      (crowdedTables_limits small table entry member).2.1

theorem crowdedTables_lost (wrapped : toInt32 number ≤ 0)
    (some_key : 0 < number) (draw : Nat → Level) (file : Option Bytes) :
    ¬ RoundTrips (crowdedTables number) 0 0 draw file := by
  intro trips
  have size : ((crowdedTables number).entries .skip).length = number :=
    (crowdedTables_filled small).size
  have within := fun table entry member =>
    (crowdedTables_limits small table entry member).1
  rcases trips.counted (crowdedTables_reachable small) within with
    positive | gone
  · obtain ⟨order, ok⟩ := (crowdedTables_filled small).valid
    have length := Engine.SkipRuns.SkipOk.entries_length ok
    rw [(crowdedTables_filled small).size] at length
    rw [ok.count, ← length] at positive
    exact Int.not_lt.mpr wrapped positive
  · obtain ⟨entry, member⟩ :=
      List.exists_mem_of_length_pos (some_key.trans_eq size.symm)
    have never : ¬ Expired true 0 entry.expireTime := by
      rw [(crowdedTables_limits small .skip entry member).2.2]
      decide
    exact (gone entry member).elim never never

end Crowded

/-- The counter of `2 ^ 31` nodes is negative, and the skip list is not
written. -/
theorem snapshot_skip_lost :
    (∀ table, ∀ entry ∈ (crowdedTables (2 ^ 31)).entries table,
      Within entry) ∧
      ¬ RoundTrips (crowdedTables (2 ^ 31)) 0 0 (fun _ => 0) none :=
  ⟨fun table entry member =>
    (crowdedTables_limits (by decide) table entry member).1,
    crowdedTables_lost (by decide) (by decide) (by decide) _ _⟩

/-! ## Completeness without assumptions -/

/-- `kvs_set_reply_body`: a null pointer and an empty value count as no
value. -/
def kvsSetReplyBody (result : Option Bytes) : Option Bytes :=
  result.filter (fun value => decide (0 < value.length))

/--
Every value that a reading command returns is written, the reader takes every
record that is written, and fresh tables hold all of them afterwards.
-/
structure Complete (enableTtl : Bool) (now : Int) (tables : Tables) :
    Prop where
  written : ∀ table key value,
    kvsSetReplyBody (tables.get enableTtl now key table) = some value →
      ∃ expireTime,
        { table := table
          entry :=
            { key := key
              value := value
              expireTime := expireTime } } ∈
          snapshotRecords enableTtl now tables
  accepted :
    acceptedRecords now
        (recordsBytes (snapshotRecords enableTtl now tables)) =
      snapshotRecords enableTtl now tables
  loaded : ∀ draw file, ∃ content after,
    kvsSnapshotSave SaveLuck.whole enableTtl now tables file =
        (some content, 0) ∧
      kvsSnapshotLoad true draw now (some content) Tables.create =
        (after, 0) ∧
      ∀ record ∈ snapshotRecords enableTtl now tables,
        record.entry ∈ after.entries record.table

/--
What is not expired of a table that is not written has no value, and what is
not expired of the others is within the limits of the reader.  Without TTL a
time in the past is not an expiry for the engines, but it is for the reader.
-/
structure Saveable (enableTtl : Bool) (now : Int) (tables : Tables) :
    Prop where
  unwritten : ∀ table, ¬ Walked enableTtl tables table →
    ∀ entry ∈ tables.keyed table,
      ¬ Expired enableTtl now entry.expireTime → entry.value = []
  within : ∀ table, Walked enableTtl tables table →
    ∀ entry ∈ tables.keyed table,
      ¬ Expired enableTtl now entry.expireTime →
        Within entry ∧ ¬ Expired true now entry.expireTime

section Completeness

variable {enableTtl : Bool} {now : Int} {tables : Tables}

theorem kvsSetReplyBody_eq_some {result : Option Bytes} {value : Bytes} :
    kvsSetReplyBody result = some value ↔
      result = some value ∧ value ≠ [] := by
  rw [kvsSetReplyBody, Option.filter_eq_some_iff, decide_eq_true_iff,
    List.length_pos_iff]

theorem keyed_times (reachable : Reachable enableTtl tables)
    {table : Table} {entry : Entry} (member : entry ∈ tables.keyed table) :
    Timed entry := by
  apply reachable.times table
  cases table with
  | array =>
      obtain ⟨slot, inside, rfl⟩ := List.mem_map.mp member
      exact List.mem_map_of_mem (List.mem_filter.mp inside).1
  | rbtree => exact member
  | hash name => exact member
  | skip => exact member

theorem Saveable.complete (saveable : Saveable enableTtl now tables)
    (reachable : Reachable enableTtl tables) :
    Complete enableTtl now tables := by
  have valid := reachable.valid
  have fine : ∀ record ∈ snapshotRecords enableTtl now tables,
      Within record.entry ∧ ¬ Expired true now record.entry.expireTime ∧
        Timed record.entry := by
    intro record member
    obtain ⟨needed, inside, timely⟩ :=
      (mem_snapshotWalk valid).mp (mem_snapshotRecords.mp member)
    obtain ⟨within, kept⟩ :=
      saveable.within _ needed _ inside timely
    exact ⟨within, kept, keyed_times reachable inside⟩
  have within := fun record member => (fine record member).1
  have timed := fun record member => (fine record member).2.2
  refine ⟨?_, ?_, ?_⟩
  · intro table key value returned
    obtain ⟨read, proper⟩ := kvsSetReplyBody_eq_some.mp returned
    obtain ⟨expireTime, member⟩ := (valid.get_eq_some_iff _ _ _).mp read
    obtain ⟨inside, timely⟩ := mem_unexpired.mp member
    refine ⟨expireTime, mem_snapshotRecords.mpr
      ((mem_snapshotWalk valid).mpr ⟨?_, inside, timely⟩)⟩
    by_contra unwritten
    exact proper (saveable.unwritten table unwritten _ inside timely)
  · rw [(acceptedRecords_saved valid within timed now (fun _ => 0)).1,
      List.filter_eq_self]
    intro record member
    exact decide_eq_true (fine record member).2.1
  · intro draw file
    obtain ⟨after, run, holds⟩ :=
      kvsSnapshotLoad_saved valid within timed now draw
    refine ⟨_, after, rfl, run, ?_⟩
    intro record member
    exact ((holds record.table).2 record.entry).mpr
      ⟨mem_snapshotRecords.mp member, (fine record member).2.1⟩

theorem Complete.saveable (complete : Complete enableTtl now tables)
    (reachable : Reachable enableTtl tables) :
    Saveable enableTtl now tables := by
  have valid := reachable.valid
  constructor
  · intro table unwritten entry member timely
    by_contra proper
    have read := (valid.get_eq_some_iff enableTtl now table).mpr
      ⟨entry.expireTime, mem_unexpired.mpr ⟨member, timely⟩⟩
    obtain ⟨expireTime, written⟩ := complete.written table entry.key
      entry.value (kvsSetReplyBody_eq_some.mpr ⟨read, proper⟩)
    exact unwritten ((mem_snapshotWalk valid).mp
      (mem_snapshotRecords.mp written)).1
  · intro table needed entry member timely
    have written : { table := table, entry := entry } ∈
        snapshotRecords enableTtl now tables :=
      mem_snapshotRecords.mpr
        ((mem_snapshotWalk valid).mpr ⟨needed, member, timely⟩)
    rw [← complete.accepted] at written
    obtain ⟨scanned, kept⟩ := List.mem_filter.mp written
    exact ⟨within_of_mem_scanRecords scanned, of_decide_eq_true kept⟩

end Completeness

end Kivo.Persistence.SnapshotRoundTrip
