import Kivo.Engine.Maps
import Kivo.Persistence.Replay
import Kivo.Persistence.Recovery
import Kivo.Persistence.SnapshotRoundTrip

/-!
# Start-up

`init_kvengine` creates empty tables, loads the snapshot into them, replays the
append-only file on top and only then prepares what the other subsystems need;
the last thing it does is to set the number of entries of the vector index to
zero.

The files it finds are those that an earlier life of the server left on the
disk.  What else it finds outside is a parameter, as it is for the commands.
-/

namespace Kivo.Persistence.Startup

open Kivo.Clib.Memory
open Kivo.Clib.Wire
open Kivo.Engine.Data
open Kivo.Engine.KeyMap
open Kivo.Engine.SkipRuns (Level)
open Kivo.Engine.Store
open Kivo.Engine.Maps
open Kivo.Resp.Frame
open Kivo.Resp.Stream
open Kivo.Server.State
open Kivo.Server.Commands
open Kivo.Server.CommandTable
open Kivo.Persistence.Log
open Kivo.Persistence.Snapshot
open Kivo.Persistence.SnapshotRoundTrip

/-! ## The code -/

/-- The flags that `init_kvengine` reads, with `g_enable_snapshot`. -/
structure Config where
  flags : Flags
  enableSnapshot : Bool
deriving DecidableEq, Repr

/-- The files of the server: the append-only file and `kvstore.snap`. -/
structure Disk where
  log : Bytes
  snapshot : Option Bytes
deriving DecidableEq, Repr

/-- The disk of a server that has never run. -/
def Disk.empty : Disk :=
  { log := [], snapshot := none }

/--
What a start finds outside the process: whether `mmap` succeeds on the
snapshot, the levels drawn while it is loaded, the clock, and what the commands
to come find.
-/
structure Boot where
  mapped : Bool
  draw : Nat → Level
  now : Int
  worlds : Nat → World

/-- `keep_index_init`. -/
def keepIndexInit (globals : Globals Store) : Globals Store :=
  { globals with store := { globals.store with vectorIndex := [] } }

/-- The globals of a process that has created its tables. -/
def Boot.created (boot : Boot) : Globals Store :=
  { store := Store.create boot.worlds
    persisted := []
    repl := ReplState.initial }

/-- The globals behind `if (g_enable_snapshot) kvs_snapshot_load();`. -/
def Boot.loaded (config : Config) (disk : Disk) (boot : Boot) :
    Globals Store :=
  if config.enableSnapshot then
    { boot.created with
      store :=
        { boot.created.store with
          tables := (kvsSnapshotLoad boot.mapped boot.draw boot.now
            disk.snapshot Tables.create).1 } }
  else boot.created

/-- `init_kvengine`; `none` says that the replay exceeded its fuel. -/
def initKvengine (config : Config) (fuel : Nat) (disk : Disk) (boot : Boot) :
    Option (Globals Store) :=
  let loaded := boot.loaded config disk
  let recovered :=
    if config.flags.logsWrites then
      (kvsPersistenceRecover (commandLayer config.flags) fuel
        (kvsPersistenceInit disk.log)
        { globals := loaded
          wbuf := none
          executed := [] }).map (fun result => result.2.globals)
    else some loaded
  recovered.map keepIndexInit

/-! ## The snapshot -/

/-- The records that `kvs_snapshot_load` sets in their tables. -/
def loadedRecords (mapped : Bool) (now : Int) :
    Option Bytes → List SnapRecord
  | none => []
  | some content =>
      let stream := content.take (content.length - 8)
      if content.length < 8 ∨ mapped = false ∨
          (kvsCrc64 0 stream).toNat ≠
            leValue (content.drop (content.length - 8)) then []
      else acceptedRecords now stream

/-- Whatever the file holds, loading it sets the records one by one. -/
theorem kvsSnapshotLoad_records
    (mapped : Bool)
    (draw : Nat → Level)
    (now : Int)
    (file : Option Bytes)
    (tables : Tables) :
    (kvsSnapshotLoad mapped draw now file tables).1 =
      (setCalls draw 0 (loadedRecords mapped now file)).foldl Tables.call
        tables := by
  cases file with
  | none => rfl
  | some content =>
      rw [kvsSnapshotLoad, loadedRecords]
      by_cases short : content.length < 8
      · rw [if_pos short, if_pos (Or.inl short)]
        rfl
      · rw [if_neg short]
        cases mapped with
        | false =>
            rw [if_pos (Or.inr (Or.inl rfl))]
            rfl
        | true =>
            rw [if_neg (by decide)]
            dsimp only
            split_ifs with broken refused refused
            · rfl
            · exact absurd (Or.inr (Or.inr broken)) refused
            · rcases refused with less | unmapped | differs
              · exact absurd less short
              · exact absurd unmapped (by decide)
              · exact absurd differs broken
            · exact loadLoop_tables draw now _ _ _

/-- Setting an entry is a call of the engine. -/
theorem set_eq_operate
    (level : Level)
    (tables : Tables)
    (table : Table)
    (entry : Entry) :
    tables.set level table entry =
      (tables.operate false level table
        (.set entry.key entry.value entry.expireTime)).1 := by
  cases table with
  | array => rfl
  | rbtree => rfl
  | hash name => rfl
  | skip => rfl

theorem foldl_call_valid
    {tables : Tables}
    (valid : Valid tables)
    (calls : List SetCall) :
    Valid (calls.foldl Tables.call tables) := by
  induction calls generalizing tables with
  | nil => exact valid
  | cons setting calls induction =>
      apply induction
      rw [Tables.call, set_eq_operate]
      exact valid.operate false setting.level setting.table _

/-- Calls on other tables leave a table alone. -/
theorem foldl_call_other
    {table : Table}
    {calls : List SetCall}
    (others : ∀ setting ∈ calls, setting.table ≠ table)
    (tables : Tables) :
    Tables.map (calls.foldl Tables.call tables) table =
      Tables.map tables table := by
  induction calls generalizing tables with
  | nil => rfl
  | cons setting calls induction =>
      rw [List.foldl_cons, induction
        (fun other member => others other (List.mem_cons_of_mem _ member)),
        Tables.call, set_eq_operate]
      exact operate_other false setting.level tables
        (fun same => others setting List.mem_cons_self same.symm) _

/-- The calls of a load come from its records. -/
theorem record_of_mem_setCalls
    {draw : Nat → Level}
    {count : Nat}
    {records : List SnapRecord}
    {setting : SetCall}
    (member : setting ∈ setCalls draw count records) :
    ∃ record ∈ records,
      setting.table = record.table ∧ setting.entry = record.entry := by
  induction records generalizing count with
  | nil => cases member
  | cons record records induction =>
      rw [setCalls, List.mem_cons] at member
      rcases member with rfl | later
      · exact ⟨record, List.mem_cons_self, rfl, rfl⟩
      · obtain ⟨other, inside, same⟩ := induction later
        exact ⟨other, List.mem_cons_of_mem _ inside, same⟩

/-- Every record of a load is set by one of its calls. -/
theorem exists_setCall_of_mem
    {draw : Nat → Level}
    {count : Nat}
    {records : List SnapRecord}
    {record : SnapRecord}
    (member : record ∈ records) :
    ∃ setting ∈ setCalls draw count records,
      setting.table = record.table ∧ setting.entry = record.entry := by
  induction records generalizing count with
  | nil => cases member
  | cons first records induction =>
      rw [setCalls]
      rcases List.mem_cons.mp member with rfl | later
      · exact ⟨_, List.mem_cons_self, rfl, rfl⟩
      · obtain ⟨setting, inside, same⟩ := @induction (count + 1) later
        exact ⟨setting, List.mem_cons_of_mem _ inside, same⟩

theorem loaded_tables (config : Config) (disk : Disk) (boot : Boot) :
    (boot.loaded config disk).store.tables =
      if config.enableSnapshot then
        (setCalls boot.draw 0
          (loadedRecords boot.mapped boot.now disk.snapshot)).foldl
            Tables.call Tables.create
      else Tables.create := by
  rw [Boot.loaded]
  split_ifs
  · exact kvsSnapshotLoad_records _ _ _ _ _
  · rfl

theorem loaded_worlds (config : Config) (disk : Disk) (boot : Boot) :
    (boot.loaded config disk).store.worlds = boot.worlds := by
  rw [Boot.loaded]
  split_ifs <;> rfl

theorem loaded_valid (config : Config) (disk : Disk) (boot : Boot) :
    Valid (boot.loaded config disk).store.tables := by
  rw [loaded_tables]
  split_ifs
  · exact foldl_call_valid valid_create _
  · exact valid_create

/-- A table of which the snapshot has no record is empty behind the load. -/
theorem loaded_map_empty
    {config : Config}
    {disk : Disk}
    {boot : Boot}
    {table : Table}
    (without : config.enableSnapshot = true →
      ∀ record ∈ loadedRecords boot.mapped boot.now disk.snapshot,
        record.table ≠ table) :
    Tables.map (boot.loaded config disk).store.tables table =
      Contents.empty := by
  rw [loaded_tables]
  split_ifs with enabled
  · rw [foldl_call_other]
    · exact map_create table
    · intro setting member
      obtain ⟨record, inside, same, -⟩ := record_of_mem_setCalls member
      rw [same]
      exact without enabled record inside
  · exact map_create table

/-! ## The log -/

/-- A log that does not begin with a complete command is not replayed. -/
theorem kvsPersistenceRecover_idle
    {κ σ : Type}
    (layer : CommandLayer κ σ)
    {a : Aof}
    (incomplete : hasCompleteRespCommand a.file 0 (toInt32 a.file.length) =
      none)
    (session : Session σ)
    (fuel : Nat) :
    ∃ next, kvsPersistenceRecover layer (fuel + 1) a session =
      some (next, session) := by
  have replayed : ∃ processed,
      protocolProcessRecover layer (fuel + 1) a.file 0
          (toInt32 a.file.length) session =
        some (processed, session) := by
    have bounds := toInt32_bounds (a.file.length : Int)
    unfold protocolProcessRecover
    split_ifs with nothing
    · exact ⟨0, rfl⟩
    · rw [frameLoop, if_pos (by omega), Int.sub_zero, Int.zero_add,
        toInt32_of_range bounds.1 bounds.2, incomplete]
      exact ⟨0, rfl⟩
  obtain ⟨processed, replayed⟩ := replayed
  rw [kvsPersistenceRecover, replayed]
  by_cases empty : a.file.length = 0
  · rw [if_pos empty]
    exact ⟨_, rfl⟩
  · rw [if_neg empty]
    exact ⟨_, rfl⟩

end Kivo.Persistence.Startup
