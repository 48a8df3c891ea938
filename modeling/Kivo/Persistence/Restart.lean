import Kivo.Persistence.Startup
import Kivo.Persistence.WrittenValues

/-!
# A restart from a snapshot and the whole log

Saving does not shorten the append-only file.  A restart loads the snapshot and
then replays the log from its first frame on, with the commands that the
snapshot already contains.  Since repeating a run of commands makes no
difference to any value, the tables hold the same maps as without the snapshot,
as long as the replay gets as far as the snapshot does.
-/

namespace Kivo.Persistence.Restart

open Kivo.Clib.Memory
open Kivo.Clib.Numeral
open Kivo.Clib.Repeating
open Kivo.Clib.Wire
open Kivo.Engine.Data
open Kivo.Engine.KeyMap
open Kivo.Engine.HashTable (slotLimit)
open Kivo.Engine.Maps
open Kivo.Engine.SkipRuns (Level)
open Kivo.Engine.Store
open Kivo.Engine.TwinTables
open Kivo.Resp.Canonical
open Kivo.Resp.Frame
open Kivo.Resp.Stream
open Kivo.Server.State
open Kivo.Server.Commands
open Kivo.Server.CommandTable
open Kivo.Server.Changes
open Kivo.Server.Requests (commandNamed isWriteName)
open Kivo.Persistence.Log
open Kivo.Persistence.Recovery
open Kivo.Persistence.Replay
open Kivo.Persistence.Snapshot
open Kivo.Persistence.SnapshotRoundTrip
open Kivo.Persistence.Startup
open Kivo.Persistence.TwinReplay
open Kivo.Persistence.WrittenValues

/-! ## Setting the values of other tables -/

section Copying

variable {live : Tables}

/-- A call that sets what some tables hold, outside the array. -/
def Copies (live : Tables) (setting : SetCall) : Prop :=
  setting.table ≠ .array ∧
    value live setting.table setting.entry.key = some setting.entry.value

/-- A call is about a key of a table. -/
def SetCall.Hits (table : Table) (key : Bytes) (setting : SetCall) : Prop :=
  setting.table = table ∧ setting.entry.key = key

theorem call_value_other {tables : Tables} (valid : Valid tables)
    {setting : SetCall} {table : Table} {key : Bytes}
    (misses : ¬ SetCall.Hits table key setting) :
    value (Tables.call tables setting) table key = value tables table key := by
  rw [Tables.call, set_eq_operate]
  refine congrArg (Option.map Item.value)
    (operate_frame valid false setting.level setting.table table _ ?_)
  exact fun same wanted => misses ⟨same.symm, wanted.symm⟩

theorem call_value_own {tables : Tables} (valid : Valid tables)
    (roomy : Roomy tables) {setting : SetCall}
    (copies : Copies live setting) :
    value (Tables.call tables setting) setting.table setting.entry.key =
      value live setting.table setting.entry.key := by
  rw [Tables.call, set_eq_operate, copies.2]
  exact operate_value valid roomy
    (Paired.set setting.entry.key setting.entry.value setting.entry.expireTime
      setting.entry.expireTime) setting.level copies.1

variable {names : List Bytes} (few : names.length < slotLimit)
  (named : Named names live)

include few named

/-- A copied value stays in its place. -/
theorem call_value {tables : Tables} (valid : Valid tables)
    (still : Named names tables) {setting : SetCall}
    (copies : Copies live setting) :
    Valid (Tables.call tables setting) ∧
      Named names (Tables.call tables setting) ∧
        ∀ table key,
          (SetCall.Hits table key setting →
            value (Tables.call tables setting) table key =
              value live table key) ∧
            (¬ SetCall.Hits table key setting →
              value (Tables.call tables setting) table key =
                value tables table key) := by
  have own := call_value_own valid (still.roomy valid few) copies
  refine ⟨?_, ?_, ?_⟩
  · rw [Tables.call, set_eq_operate]
    exact valid.operate false setting.level setting.table _
  · intro name key held
    by_cases hits : SetCall.Hits (.hash name) key setting
    · obtain ⟨table, same⟩ := hits
      refine named name key ?_
      rw [← table, ← same, copies.2]
      exact Option.some_ne_none _
    · rw [call_value_other valid hits] at held
      exact still name key held
  · intro table key
    refine ⟨?_, call_value_other valid⟩
    rintro ⟨rfl, rfl⟩
    exact own

/-- Calls that copy values: every key that one of them is about holds its
value, and the others hold what they held. -/
theorem foldl_call_values {calls : List SetCall}
    (copies : ∀ setting ∈ calls, Copies live setting) {tables : Tables}
    (valid : Valid tables) (still : Named names tables) :
    Valid (calls.foldl Tables.call tables) ∧
      Named names (calls.foldl Tables.call tables) ∧
        ∀ table key,
          ((∃ setting ∈ calls, SetCall.Hits table key setting) →
            value (calls.foldl Tables.call tables) table key =
              value live table key) ∧
            ((∀ setting ∈ calls, ¬ SetCall.Hits table key setting) →
              value (calls.foldl Tables.call tables) table key =
                value tables table key) := by
  induction calls generalizing tables with
  | nil =>
      refine ⟨valid, still, fun table key => ⟨?_, fun _ => rfl⟩⟩
      rintro ⟨setting, member, -⟩
      cases member
  | cons setting calls induction =>
      obtain ⟨nextValid, nextNamed, next⟩ := call_value few named valid still
        (copies setting List.mem_cons_self)
      obtain ⟨lastValid, lastNamed, last⟩ := induction
        (fun other member => copies other (List.mem_cons_of_mem _ member))
        nextValid nextNamed
      refine ⟨lastValid, lastNamed, fun table key => ⟨?_, ?_⟩⟩
      · intro found
        by_cases later : ∃ other ∈ calls, SetCall.Hits table key other
        · exact (last table key).1 later
        · have none : ∀ other ∈ calls, ¬ SetCall.Hits table key other :=
            fun other member hits => later ⟨other, member, hits⟩
          have here : SetCall.Hits table key setting := by
            obtain ⟨other, member, hits⟩ := found
            rcases List.mem_cons.mp member with rfl | inside
            · exact hits
            · exact absurd hits (none other inside)
          exact ((last table key).2 none).trans ((next table key).1 here)
      · intro misses
        exact ((last table key).2
          (fun other member => misses other (List.mem_cons_of_mem _ member))).trans
            ((next table key).2 (misses setting List.mem_cons_self))

end Copying

/-! ## What the load leaves -/

/-- A file that was saved gives back the records that the loop accepts. -/
theorem loadedRecords_sealed (mapped : Bool) (now : Int) (stream : Bytes) :
    loadedRecords mapped now (some (sealed stream)) =
      if mapped then acceptedRecords now stream else [] := by
  obtain ⟨length, front, sum⟩ := sealed_parts stream
  rw [loadedRecords, length, Nat.add_sub_cancel, front, sum]
  cases mapped with
  | false => exact if_pos (Or.inr (Or.inl rfl))
  | true =>
      refine if_neg ?_
      rintro (short | unmapped | differs)
      · omega
      · cases unmapped
      · exact differs rfl

/-- The file of a save that succeeds without TTL. -/
def savedFile (saved : Int) (live : Tables) : Bytes :=
  sealed (recordsBytes (snapshotRecords false saved live))

theorem kvsSnapshotSave_whole (saved : Int) (live : Tables)
    (old : Option Bytes) :
    (kvsSnapshotSave SaveLuck.whole false saved live old).1 =
      some (savedFile saved live) :=
  rfl

/-- The keys and values have lengths that are values of `int`. -/
def Short (live : Tables) : Prop :=
  ∀ table key stored, table ≠ .array →
    value live table key = some stored →
      key.length < 2 ^ 31 ∧ stored.length < 2 ^ 31

section Loading

variable {live : Tables} (valid : Valid live)

include valid

/-- What is written without TTL is a value of a table other than the array. -/
theorem value_of_saved {saved : Int} {record : SnapRecord}
    (written : record ∈ snapshotRecords false saved live) :
    record.table ≠ .array ∧
      value live record.table record.entry.key = some record.entry.value := by
  obtain ⟨⟨needed, -⟩, member, -⟩ :=
    (mem_snapshotWalk valid).mp (mem_snapshotRecords.mp written)
  have keyed : record.table ≠ .array := by
    intro array
    exact Bool.false_ne_true (needed array)
  refine ⟨keyed, ?_⟩
  rw [value, Tables.map, Option.map_eq_some_iff]
  exact ⟨_, (mem_iff_contents (valid.distinct _) _).mp member, rfl⟩

/-- What is loaded was saved. -/
theorem mem_loadedRecords (short : Short live) {mapped : Bool}
    {now saved : Int} {found : SnapRecord}
    (member : found ∈
      loadedRecords mapped now (some (savedFile saved live))) :
    ∃ record ∈ snapshotRecords false saved live, found = record.read := by
  rw [savedFile, loadedRecords_sealed] at member
  split_ifs at member
  · refine mem_scanRecords_bytes ?_ (List.mem_of_mem_filter member)
    intro record written
    obtain ⟨keyed, held⟩ := value_of_saved valid written
    exact short record.table record.entry.key record.entry.value keyed held
  · cases member

/-- The calls of the load copy what was saved. -/
theorem copies_of_loaded (short : Short live) {mapped : Bool}
    {now saved : Int} {draw : Nat → Level} {setting : SetCall}
    (member : setting ∈ setCalls draw 0
      (loadedRecords mapped now (some (savedFile saved live)))) :
    Copies live setting := by
  obtain ⟨record, inside, table, entry⟩ := record_of_mem_setCalls member
  obtain ⟨origin, written, rfl⟩ := mem_loadedRecords valid short inside
  obtain ⟨sameTable, sameKey, sameValue⟩ := origin.read_fields
  rw [Copies, table, entry, sameTable, sameKey, sameValue]
  exact value_of_saved valid written

/-- Behind the load a key holds what was saved, or nothing. -/
theorem loaded_values (short : Short live) {names : List Bytes}
    (few : names.length < slotLimit) (named : Named names live)
    (config : Config) (log : Bytes) (saved : Int) (boot : Boot)
    {loaded : Tables}
    (behind : loaded = (boot.loaded config
      { log := log, snapshot := some (savedFile saved live) }).store.tables) :
    Valid loaded ∧ Named names loaded ∧ ∀ table key,
      value loaded table key = none ∨
        value loaded table key = value live table key := by
  subst behind
  rw [loaded_tables]
  split_ifs with enabled
  · obtain ⟨loadedValid, loadedNamed, values⟩ := foldl_call_values few named
      (fun setting member => copies_of_loaded valid short member) valid_create
      (named_create names)
    refine ⟨loadedValid, loadedNamed, fun table key => ?_⟩
    by_cases hit : ∃ setting ∈ setCalls boot.draw 0
        (loadedRecords boot.mapped boot.now (some (savedFile saved live))),
        SetCall.Hits table key setting
    · exact Or.inr ((values table key).1 hit)
    · left
      rw [(values table key).2
        (fun setting member hits => hit ⟨setting, member, hits⟩),
        value_create]
  · exact ⟨valid_create, named_create names,
      fun table key => Or.inl (value_create table key)⟩

/-- A file whose entries keep the limits of the reader gives back everything,
if the clock stands at its start. -/
theorem loaded_present (short : Short live) {names : List Bytes}
    (few : names.length < slotLimit) (named : Named names live)
    {saved : Int}
    (within : ∀ record ∈ snapshotRecords false saved live,
      Within record.entry)
    {config : Config} (enabled : config.enableSnapshot = true) (log : Bytes)
    {boot : Boot} (mapped : boot.mapped = true) (early : boot.now ≤ 0)
    {table : Table} (keyed : table ≠ .array)
    (counted : table = .skip → 0 < live.skip.count) {key : Bytes}
    (held : value live table key ≠ none) :
    value (boot.loaded config
        { log := log,
          snapshot := some (savedFile saved live) }).store.tables table key =
      value live table key := by
  rw [loaded_tables, if_pos enabled]
  obtain ⟨-, -, values⟩ := foldl_call_values few named
    (fun setting member => copies_of_loaded valid short member) valid_create
    (named_create names)
  refine (values table key).1 ?_
  obtain ⟨stored, found⟩ := Option.ne_none_iff_exists'.mp held
  obtain ⟨item, here, rfl⟩ := Option.map_eq_some_iff.mp found
  let record : SnapRecord :=
    { table := table
      entry :=
        { key := key
          value := item.value
          expireTime := item.expireTime } }
  have written : record ∈ snapshotRecords false saved live := by
    refine mem_snapshotRecords.mpr
      ((mem_snapshotWalk valid).mpr ⟨⟨?_, counted⟩, ?_, ?_⟩)
    · exact fun array => absurd array keyed
    · exact (contents_eq_some_iff (valid.distinct table)).mp here
    · exact fun expired => Bool.false_ne_true expired.1
  have accepted : record.read ∈
      loadedRecords boot.mapped boot.now (some (savedFile saved live)) := by
    rw [savedFile, loadedRecords_sealed, if_pos mapped, acceptedRecords,
      scanRecords_bytes_cut within (length_le_recordsBytes _)]
    refine List.mem_filter.mpr ⟨List.mem_map_of_mem written, ?_⟩
    refine decide_eq_true (fun expired => ?_)
    have later := expired.2
    omega
  obtain ⟨setting, inside, sameTable, sameEntry⟩ :=
    @exists_setCall_of_mem boot.draw 0 _ _ accepted
  obtain ⟨readTable, readKey, -⟩ := record.read_fields
  exact ⟨setting, inside, sameTable.trans readTable,
    (congrArg Entry.key sameEntry).trans readKey⟩

end Loading

/-! ## How far a log is replayed -/

theorem argLists_append (first second : List CompleteCommand) :
    argLists (first ++ second) = argLists first ++ argLists second :=
  List.map_append

/-- The number of bytes of a log, as `kvs_persistence_recover` passes it on. -/
def window (commands : List CompleteCommand) : Int :=
  toInt32 ((respStream (argLists commands)).length : Int)

/-- The window does not reach beyond the log. -/
theorem window_le (commands : List CompleteCommand) :
    window commands ≤ ((respStream (argLists commands)).length : Int) := by
  have bounds := toInt32_bounds
    ((respStream (argLists commands)).length : Int)
  by_cases small : (respStream (argLists commands)).length < 2 ^ 31
  · rw [window, toInt32_of_range (by omega) (by omega)]
  · rw [window]
    omega

/-- The frames of a log that lie in its window, of which the first ones are
known to. -/
theorem exists_readable {head rest : List CompleteCommand}
    (inside : ((respStream (argLists head)).length : Int) ≤
      window (head ++ rest)) :
    ∃ taken short, taken <+: rest ∧ TornTail short ∧
      respStream (argLists (head ++ taken)) ++ short <+:
        respStream (argLists (head ++ rest)) ∧
      window (head ++ rest) =
        ((respStream (argLists (head ++ taken)) ++ short).length : Int) := by
  have most := window_le (head ++ rest)
  have split : ∀ others, respStream (argLists (head ++ others)) =
      respStream (argLists head) ++ respStream (argLists others) := by
    intro others
    rw [argLists_append, respStream_append]
  rw [split, List.length_append] at most
  generalize window (head ++ rest) = reach at inside most
  by_cases cut : reach.toNat - (respStream (argLists head)).length <
      (respStream (argLists rest)).length
  · obtain ⟨taken, next, more, short, shape, torn, content, length⟩ :=
      exists_torn_frame cut
    refine ⟨taken, short, ⟨next :: more, shape.symm⟩, torn, ?_, ?_⟩
    · rw [split, split, List.append_assoc]
      exact (List.prefix_append_right_inj _).mpr content
    · rw [split, List.append_assoc, List.length_append, length]
      omega
  · refine ⟨rest, [], List.prefix_rfl, Or.inl rfl, ?_, ?_⟩
    · rw [List.append_nil]
    · rw [List.append_nil, split, List.length_append]
      omega

/-- Every start over a log replays these commands over what it has loaded. -/
def Replays (flags : Flags) (log taken : List CompleteCommand) : Prop :=
  ∀ (snapshot : Option Bytes) (boot : Boot) (fuel : Nat), log.length < fuel →
    ∃ restarted,
      initKvengine { flags := flags, enableSnapshot := true } fuel
          { log := respStream (argLists log), snapshot := snapshot } boot =
        some restarted ∧
      Produces (fun _ expire _ => expire = 0)
        (boot.loaded { flags := flags, enableSnapshot := true }
          { log := respStream (argLists log),
            snapshot := snapshot }).store.tables
        (argLists taken) restarted.store.tables

section Replaying

variable {flags : Flags} (off : flags.enableTtl = false)
  (logging : flags.logsWrites = true)

include off logging

/-- The frames in the window of a log are replayed. -/
theorem replays_readable {log taken : List CompleteCommand} {short : Bytes}
    (front : taken.length ≤ log.length) (torn : TornTail short)
    (content : respStream (argLists taken) ++ short <+:
      respStream (argLists log))
    (reach : window log =
      ((respStream (argLists taken) ++ short).length : Int)) :
    Replays flags log taken := by
  intro snapshot boot fuel enough
  let session : Session Store :=
    { globals := boot.loaded { flags := flags, enableSnapshot := true }
        { log := respStream (argLists log), snapshot := snapshot }
      wbuf := none
      executed := [] }
  have counted : (argLists taken).length < fuel := by
    rw [argLists, List.length_map]
    omega
  obtain ⟨next, ended, -⟩ := @kvsPersistenceRecover_runs _ _
    (commandLayer flags) session
    (kvsPersistenceInit (respStream (argLists log))) (argLists taken) short
    fuel content torn reach counted
  refine ⟨keepIndexInit (runWindows
    (replayCommand (commandLayer flags) (respStream (argLists log)))
    (frameWindows 0 (argLists taken)) session).globals, ?_, ?_⟩
  · rw [initKvengine, if_pos logging, ended]
    rfl
  · have stored : Holds (respStream (argLists log)) 0
        (respStream (argLists taken)) :=
      ⟨le_rfl, (List.prefix_append _ _).trans content⟩
    have small : (respStream (argLists taken)).length < 2 ^ 31 := by
      have bounds := toInt32_bounds
        ((respStream (argLists log)).length : Int)
      rw [window, List.length_append] at reach
      omega
    refine runWindows_produces stored small ?_ session
    intro args _ address held fits session
    refine ⟨_, _, _, ?_, replayCommand_tables held fits (Or.inl off) session⟩
    exact if_neg (by
      rw [show (callOf flags _ _ _ _).flags.enableTtl = false from off]
      exact Bool.false_ne_true)

omit off in
/-- A log without a window is not replayed. -/
theorem replays_nothing {log : List CompleteCommand}
    (closed : window log < 0) :
    Replays flags log [] := by
  intro snapshot boot fuel _
  have some_byte : ¬ (kvsPersistenceInit
      (respStream (argLists log))).file.length = 0 := by
    intro empty
    have none : (respStream (argLists log)).length = 0 := empty
    rw [window, none] at closed
    exact absurd closed (by decide)
  have unread : toInt32 ((kvsPersistenceInit
      (respStream (argLists log))).file.length : Int) ≤ 0 :=
    Int.le_of_lt closed
  refine ⟨keepIndexInit
    (boot.loaded { flags := flags, enableSnapshot := true }
      { log := respStream (argLists log), snapshot := snapshot }), ?_,
    .nil _⟩
  rw [initKvengine, if_pos logging]
  dsimp only
  rw [kvsPersistenceRecover, if_neg some_byte, protocolProcessRecover,
    if_pos unread]
  rfl

/-- Every start replays the frames in the window of its log. -/
theorem exists_replays {head rest : List CompleteCommand}
    (inside : ((respStream (argLists head)).length : Int) ≤
      max (window (head ++ rest)) 0) :
    ∃ taken, taken <+: rest ∧
      ((respStream (argLists (head ++ taken))).length : Int) ≤
        max (window (head ++ rest)) 0 ∧
      Replays flags (head ++ rest) (head ++ taken) := by
  by_cases closed : window (head ++ rest) < 0
  · have none : head = [] := by
      have empty : argLists head = [] := respStream_eq_nil (by omega)
      exact List.map_eq_nil_iff.mp empty
    subst none
    exact ⟨[], List.nil_prefix, inside, replays_nothing logging closed⟩
  · obtain ⟨taken, short, front, torn, content, reach⟩ :=
      @exists_readable head rest (by omega)
    refine ⟨taken, front, ?_, ?_⟩
    · rw [List.length_append] at reach
      omega
    · refine replays_readable off logging ?_ torn content reach
      rw [List.length_append, List.length_append]
      exact Nat.add_le_add_left front.length_le _

end Replaying

/-! ## Restarts -/

/-- A write command as the log holds it; an id that it adds to a list contains
no comma. -/
structure Loggable (command : CompleteCommand) : Prop where
  write : isWriteName (command.args.getD 0 []) = true
  free : CommaFree command.args

/--
A server without a past executes some commands, saves, and goes on to log the
rest.  Whenever it is started over the snapshot and the whole log, it holds the
same maps as when it is started over the log alone, in every table but the
array.
-/
def Converges (flags : Flags) (executed rest : List CompleteCommand) : Prop :=
  ∀ (worlds : Nat → World) (deliveries : List Delivery) (fuel : Nat),
    (∀ delivery ∈ deliveries,
      delivery.Canonical ∧ delivery.commands.length < fuel) →
    (deliveries.flatMap Delivery.commands).flatMap loggedPart =
      argLists executed →
    (executed ++ rest).length < fuel →
    ∃ live,
      serveAll flags fuel (freshGlobals worlds) deliveries = some live ∧
      ∀ (saved : Int) (old : Option Bytes) (boot other : Boot),
        ∃ restarted fresh,
          initKvengine { flags := flags, enableSnapshot := true } fuel
              { log := respStream (argLists (executed ++ rest))
                snapshot := (kvsSnapshotSave SaveLuck.whole flags.enableTtl
                  saved live.store.tables old).1 } boot =
            some restarted ∧
          initKvengine { flags := flags, enableSnapshot := true } fuel
              { log := respStream (argLists (executed ++ rest))
                snapshot := none } other =
            some fresh ∧
          ∀ table, table ≠ .array →
            SameMap restarted.store.tables fresh.store.tables table

/-- Without a snapshot nothing is loaded. -/
theorem loaded_none (config : Config) (log : Bytes) (boot : Boot) :
    (boot.loaded config { log := log, snapshot := none }).store.tables =
      Tables.create := by
  rw [loaded_tables]
  split_ifs <;> rfl

/-- A frame has at least four bytes. -/
theorem length_le_respStream (commands : List (List Bytes)) :
    4 * commands.length ≤ (respStream commands).length := by
  induction commands with
  | nil => exact Nat.le_refl _
  | cons command rest induction =>
      have minimum := respEncode_length_ge command
      rw [respStream_cons, List.length_append, List.length_cons]
      omega

section Restarts

variable {flags : Flags} (off : flags.enableTtl = false)
  (logging : flags.logsWrites = true)

include off logging

/-- What a server that has executed some commands holds. -/
theorem served_values {executed : List CompleteCommand}
    {names : List Bytes} (few : names.length < slotLimit)
    (listed : ∀ command ∈ executed, command.args.getD 1 [] ∈ names)
    {worlds : Nat → World} {deliveries : List Delivery} {fuel : Nat}
    (canonical : ∀ delivery ∈ deliveries,
      delivery.Canonical ∧ delivery.commands.length < fuel)
    (logged : (deliveries.flatMap Delivery.commands).flatMap loggedPart =
      argLists executed) :
    ∃ live,
      serveAll flags fuel (freshGlobals worlds) deliveries = some live ∧
        Valid live.store.tables ∧ Named names live.store.tables ∧
          ∀ {table}, table ≠ .array → ∀ key,
            value live.store.tables table key =
              (argLists executed).foldl (commandLeaves table key) none := by
  obtain ⟨live, run, -, served⟩ := @serveAll_produces
    (fun _ expire _ => expire = 0) flags logging deliveries fuel
    (fun delivery member => (canonical delivery member).1)
    (fun delivery member => (canonical delivery member).2)
    (fun _ _ => Or.inl off)
    (fun _ _ call same _ => by
      rw [expireOf, same, off]
      rfl) (freshGlobals worlds)
  obtain ⟨valid, named, values⟩ := values_of_run few served valid_create
    (named_create names) (by
      intro args member write
      have inside : args ∈ argLists executed := by
        rw [← logged, List.mem_flatMap]
        refine ⟨args, member, ?_⟩
        rw [loggedPart, if_pos write]
        exact List.mem_singleton_self args
      obtain ⟨command, origin, rfl⟩ := List.mem_map.mp inside
      exact listed command origin)
  refine ⟨live, run, valid, named, ?_⟩
  intro table keyed key
  rw [values keyed, ← foldl_commandLeaves_logged, logged]
  exact congrArg (List.foldl _ · _) (value_create table key)

omit off logging in
/-- What a start leaves behind. -/
theorem replayed_values {taken : List CompleteCommand}
    {names : List Bytes} (few : names.length < slotLimit)
    (listed : ∀ command ∈ taken, command.args.getD 1 [] ∈ names)
    {loaded after : Tables}
    (ran : Produces (fun _ expire _ => expire = 0) loaded (argLists taken)
      after)
    (valid : Valid loaded) (named : Named names loaded) :
    Valid after ∧ ∀ {table}, table ≠ .array → ∀ key,
      value after table key =
        (argLists taken).foldl (commandLeaves table key)
          (value loaded table key) := by
  obtain ⟨final, -, values⟩ := values_of_run few ran valid named (by
    intro args member _
    obtain ⟨command, origin, rfl⟩ := List.mem_map.mp member
    exact listed command origin)
  exact ⟨final, values⟩

/-- A restart whose replay gets as far as the snapshot loses nothing. -/
theorem converges_of_inside {executed rest : List CompleteCommand}
    (free : ∀ command ∈ executed, CommaFree command.args)
    (inside : ((respStream (argLists executed)).length : Int) ≤
      max (window (executed ++ rest)) 0) :
    Converges flags executed rest := by
  obtain ⟨taken, -, reach, replays⟩ := exists_replays off logging inside
  have bounds := toInt32_bounds
    ((respStream (argLists (executed ++ rest))).length : Int)
  rw [← window] at bounds
  let names := (executed ++ taken).map
    (fun command : CompleteCommand => command.args.getD 1 [])
  have few : names.length < slotLimit := by
    have frames := length_le_respStream (argLists (executed ++ taken))
    have counted : (argLists (executed ++ taken)).length =
        (executed ++ taken).length := List.length_map _
    rw [List.length_map, slotLimit]
    omega
  have listed : ∀ command ∈ executed ++ taken,
      command.args.getD 1 [] ∈ names :=
    fun command member => List.mem_map_of_mem member
  intro worlds deliveries fuel canonical logged enough
  obtain ⟨live, run, valid, named, values⟩ := served_values off logging few
    (fun command member => listed command (List.mem_append_left _ member))
    canonical logged
  refine ⟨live, run, ?_⟩
  intro saved old boot other
  have short : Short live.store.tables := by
    intro table key stored keyed held
    rw [values keyed] at held
    obtain ⟨key, stored⟩ := foldl_commandLeaves_short (by
      intro args member
      obtain ⟨command, -, rfl⟩ := List.mem_map.mp member
      exact command.small) held
    refine ⟨key.resolve_left (fun same => same rfl), ?_⟩
    rw [Option.getD_none, List.length_nil] at stored
    omega
  rw [off, kvsSnapshotSave_whole]
  obtain ⟨restarted, started, ran⟩ :=
    replays (some (savedFile saved live.store.tables)) boot fuel enough
  obtain ⟨fresh, begun, plain⟩ := replays none other fuel enough
  refine ⟨restarted, fresh, started, begun, ?_⟩
  obtain ⟨loadedValid, loadedNamed, loaded⟩ :=
    loaded_values valid short few named _ _ saved boot rfl
  rw [loaded_none] at plain
  obtain ⟨finalValid, final⟩ :=
    replayed_values few listed ran loadedValid loadedNamed
  obtain ⟨freshValid, reference⟩ :=
    replayed_values few listed plain valid_create (named_create names)
  intro table keyed
  refine sameMap_of_values finalValid freshValid keyed ?_
  intro key
  have same : value restarted.store.tables table key =
      value fresh.store.tables table key := by
    rw [final keyed, reference keyed, value_create,
      argLists_append executed taken]
    refine foldl_append_of_repeated
      (foldl_commandLeaves_repeated ?_ table key none) ?_
    · intro args member
      obtain ⟨command, origin, rfl⟩ := List.mem_map.mp member
      exact free command origin
    · rw [← values keyed]
      exact loaded table key
  exact same

end Restarts

/-! ## Logs that are too large -/

/-- A command that leaves every value outside the array alone. -/
def Idle (args : List Bytes) : Prop :=
  ∀ table key old, table ≠ .array → commandLeaves table key old args = old

theorem foldl_idle {commands : List (List Bytes)}
    (idle : ∀ args ∈ commands, Idle args) {table : Table}
    (keyed : table ≠ .array) (key : Bytes) (old : Option Bytes) :
    commands.foldl (commandLeaves table key) old = old := by
  induction commands with
  | nil => rfl
  | cons args rest induction =>
      rw [List.foldl_cons, idle args List.mem_cons_self table key old keyed]
      exact induction
        (fun other member => idle other (List.mem_cons_of_mem _ member))

/-- `DEL` with one key. -/
def delArgs (key : Bytes) : List Bytes :=
  [ascii "DEL", key]

theorem commandChange_del (key : Bytes) :
    commandChange (delArgs key) 0 0 = .operate .array (.del key) := by
  have named : commandNamed (ascii "DEL") = some ⟨ascii "DEL", .arrayDel⟩ := by
    decide
  rw [commandChange, show (delArgs key).getD 0 [] = ascii "DEL" from rfl, named]
  rfl

theorem idle_del (key : Bytes) : Idle (delArgs key) := by
  intro table wanted old keyed
  rw [commandLeaves, commandChange_del]
  refine if_neg ?_
  rintro ⟨same, -⟩
  exact keyed same.symm

/-- `RSET` with one key. -/
def rsetArgs (key value : Bytes) : List Bytes :=
  [ascii "RSET", key, value]

theorem commandLeaves_rset (key stored : Bytes) (table : Table)
    (wanted : Bytes) (old : Option Bytes) :
    commandLeaves table wanted old (rsetArgs key stored) =
      if Table.rbtree = table ∧ key = wanted then some stored else old := by
  have named : commandNamed (ascii "RSET") =
      some ⟨ascii "RSET", .rbtreeSet⟩ := by
    decide
  rw [commandLeaves, commandChange,
    show (rsetArgs key stored).getD 0 [] = ascii "RSET" from rfl, named]
  rfl

/-- `RSET k v`, and `RSET k w`. -/
def setCommand : CompleteCommand :=
  { args := rsetArgs (ascii "k") (ascii "v"), small := by decide }

def resetCommand : CompleteCommand :=
  { args := rsetArgs (ascii "k") (ascii "w"), small := by decide }

/-- A connection that delivers one frame. -/
def oneFrame (args : List Bytes) : Delivery :=
  { fd := 0
    mem := respEncode args
    inBuf := 0
    wbuf := none
    commands := [args] }

theorem oneFrame_canonical (command : CompleteCommand) :
    (oneFrame command.args).Canonical := by
  have frame : respStream [command.args] = respEncode command.args :=
    List.append_nil _
  refine ⟨⟨Int.le_refl 0, ?_⟩, ?_⟩
  · exact frame ▸ List.prefix_rfl
  · exact frame ▸ command.small

/-- Write commands are logged one by one. -/
theorem flatMap_loggedPart {commands : List (List Bytes)}
    (writes : ∀ args ∈ commands, isWriteName (args.getD 0 []) = true) :
    commands.flatMap loggedPart = commands := by
  induction commands with
  | nil => rfl
  | cons args rest induction =>
      rw [List.flatMap_cons, loggedPart, if_pos (writes args List.mem_cons_self),
        induction (fun other member => writes other (List.mem_cons_of_mem _ member))]
      rfl

theorem oneFrame_logged {commands : List CompleteCommand}
    (writes : ∀ command ∈ commands,
      isWriteName (command.args.getD 0 []) = true) :
    (((argLists commands).map oneFrame).flatMap
        Delivery.commands).flatMap loggedPart = argLists commands := by
  have single : ((argLists commands).map oneFrame).flatMap
      Delivery.commands = argLists commands := by
    rw [List.flatMap_map]
    exact List.flatMap_singleton' _
  rw [single]
  refine flatMap_loggedPart ?_
  intro args member
  obtain ⟨command, inside, rfl⟩ := List.mem_map.mp member
  exact writes command inside

/-- The frames in front of a reach that ends before the last of them. -/
theorem prefix_of_reach {filler rest taken : List CompleteCommand}
    {last : CompleteCommand} {reach : Int}
    (front : taken <+: (filler ++ [last]) ++ rest)
    (read : ((respStream (argLists taken)).length : Int) ≤ reach)
    (beyond : reach <
      ((respStream (argLists (filler ++ [last]))).length : Int)) :
    taken <+: filler := by
  have short : ∀ others,
      taken ≠ (filler ++ [last]) ++ others := by
    rintro others rfl
    rw [argLists_append, respStream_append, List.length_append] at read
    omega
  have within : taken <+: filler ++ [last] := by
    rcases List.prefix_or_prefix_of_prefix front
      (List.prefix_append (filler ++ [last]) rest) with shorter | longer
    · exact shorter
    · obtain ⟨others, same⟩ := longer
      exact absurd same.symm (short others)
  rcases List.prefix_concat_iff.mp within with whole | shorter
  · exact absurd (whole.trans (List.append_nil _).symm) (short [])
  · exact shorter

/-- A write command that leaves the maps alone and names a known key. -/
structure Filler (names : List Bytes) (command : CompleteCommand) : Prop where
  idle : Idle command.args
  listed : command.args.getD 1 [] ∈ names
  write : isWriteName (command.args.getD 0 []) = true

/-- What `RSET k v` leaves behind idle commands. -/
theorem foldl_filler {names : List Bytes} {filler : List CompleteCommand}
    (fills : ∀ command ∈ filler, Filler names command) {table : Table}
    (keyed : table ≠ .array) (key : Bytes) :
    (argLists (filler ++ [setCommand])).foldl (commandLeaves table key) none =
      if Table.rbtree = table ∧ ascii "k" = key then some (ascii "v")
      else none := by
  have idle : (argLists filler).foldl (commandLeaves table key) none =
      none := by
    refine foldl_idle ?_ keyed key none
    intro args member
    obtain ⟨command, inside, rfl⟩ := List.mem_map.mp member
    exact (fills command inside).idle
  rw [argLists_append, List.foldl_append, idle]
  exact commandLeaves_rset (ascii "k") (ascii "v") table key none

/-- A boot that finds the clock at its start and maps the snapshot. -/
def earlyBoot : Boot :=
  { mapped := true
    draw := fun _ => 0
    now := 0
    worlds := fun _ => default }

section Beyond

variable {flags : Flags} (off : flags.enableTtl = false)
  (logging : flags.logsWrites = true)

include off logging

/-- A command of the snapshot that is not replayed makes the difference. -/
theorem not_converges {names : List Bytes} (few : names.length < slotLimit)
    (known : ascii "k" ∈ names) {filler rest : List CompleteCommand}
    (fills : ∀ command ∈ filler, Filler names command)
    (beyond : max (window (filler ++ [setCommand] ++ rest)) 0 <
      ((respStream (argLists (filler ++ [setCommand]))).length : Int)) :
    ¬ Converges flags (filler ++ [setCommand]) rest := by
  intro converges
  have writes : ∀ command ∈ filler ++ [setCommand],
      isWriteName (command.args.getD 0 []) = true := by
    intro command member
    rcases List.mem_append.mp member with inside | last
    · exact (fills command inside).write
    · rw [List.mem_singleton.mp last]
      decide
  have listed : ∀ command ∈ filler ++ [setCommand],
      command.args.getD 1 [] ∈ names := by
    intro command member
    rcases List.mem_append.mp member with inside | last
    · exact (fills command inside).listed
    · rw [List.mem_singleton.mp last]
      exact known
  have canonical : ∀ delivery ∈
      (argLists (filler ++ [setCommand])).map oneFrame,
      delivery.Canonical ∧ delivery.commands.length <
        (filler ++ [setCommand] ++ rest).length + 2 := by
    intro delivery member
    obtain ⟨args, inside, rfl⟩ := List.mem_map.mp member
    obtain ⟨command, -, rfl⟩ := List.mem_map.mp inside
    refine ⟨oneFrame_canonical command, ?_⟩
    exact Nat.lt_add_of_pos_left (Nat.succ_pos _)
  have logged := oneFrame_logged writes
  have enough : (filler ++ [setCommand] ++ rest).length <
      (filler ++ [setCommand] ++ rest).length + 2 :=
    Nat.lt_add_of_pos_right (by decide)
  obtain ⟨live, run, valid, named, values⟩ := @served_values flags off logging
    _ names few listed (fun _ => default) _ _ canonical logged
  obtain ⟨live', run', outcome⟩ := converges (fun _ => default) _ _ canonical
    logged enough
  obtain rfl : live = live' := Option.some.inj (run.symm.trans run')
  obtain ⟨restarted, fresh, started, begun, same⟩ :=
    outcome 0 none earlyBoot earlyBoot
  rw [off, kvsSnapshotSave_whole] at started
  have held : ∀ {table}, table ≠ .array → ∀ key,
      value live.store.tables table key =
        if Table.rbtree = table ∧ ascii "k" = key then some (ascii "v")
        else none :=
    fun keyed key => (values keyed key).trans (foldl_filler fills keyed key)
  have entries : ∀ {table key stored}, table ≠ .array →
      value live.store.tables table key = some stored →
        key = ascii "k" ∧ stored = ascii "v" := by
    intro table key stored keyed found
    rw [held keyed] at found
    split_ifs at found with here
    exact ⟨here.2.symm, (Option.some.inj found).symm⟩
  have short : Short live.store.tables := by
    intro table key stored keyed found
    obtain ⟨rfl, rfl⟩ := entries keyed found
    decide
  have within : ∀ record ∈ snapshotRecords false 0 live.store.tables,
      Within record.entry := by
    intro record written
    obtain ⟨keyed, found⟩ := value_of_saved valid written
    obtain ⟨key, stored⟩ := entries keyed found
    constructor
    · rw [key]
      decide
    · rw [key]
      decide
    · rw [stored]
      decide
  have tree : Table.rbtree ≠ .array := nofun
  have present : value live.store.tables .rbtree (ascii "k") =
      some (ascii "v") :=
    (held tree _).trans (if_pos ⟨rfl, rfl⟩)
  obtain ⟨taken, front, read, replays⟩ := @exists_replays flags off logging []
    (filler ++ [setCommand] ++ rest) (Int.le_max_right _ _)
  have part := prefix_of_reach front read beyond
  have fillers : ∀ command ∈ taken, Filler names command :=
    fun command member => fills command (part.subset member)
  have kept : ∀ old, (argLists taken).foldl
      (commandLeaves .rbtree (ascii "k")) old = old := by
    intro old
    refine foldl_idle ?_ tree _ old
    intro args member
    obtain ⟨command, inside, rfl⟩ := List.mem_map.mp member
    exact (fillers command inside).idle
  obtain ⟨restarted', started', ran⟩ := replays
    (some (savedFile 0 live.store.tables)) earlyBoot _ enough
  obtain ⟨fresh', begun', plain⟩ := replays none earlyBoot _ enough
  obtain rfl : restarted = restarted' :=
    Option.some.inj (started.symm.trans started')
  obtain rfl : fresh = fresh' := Option.some.inj (begun.symm.trans begun')
  obtain ⟨loadedValid, loadedNamed, -⟩ := loaded_values valid short few named
    { flags := flags, enableSnapshot := true } _ 0 earlyBoot rfl
  obtain ⟨finalValid, final⟩ := replayed_values few
    (fun command member => (fillers command member).listed) ran loadedValid
    loadedNamed
  rw [loaded_none] at plain
  obtain ⟨freshValid, reference⟩ := replayed_values few
    (fun command member => (fillers command member).listed) plain valid_create
    (named_create names)
  have left : value restarted.store.tables .rbtree (ascii "k") =
      some (ascii "v") := by
    rw [final tree, kept, ← present]
    exact loaded_present valid short few named within rfl _ rfl
      (Int.le_refl 0) tree nofun (present ▸ Option.some_ne_none _)
  have right : value fresh.store.tables .rbtree (ascii "k") = none := by
    rw [reference tree, kept, value_create]
  have read := (same .rbtree tree).1 0 (ascii "k")
  rw [get_map finalValid tree, get_map freshValid tree] at read
  have equal : value restarted.store.tables .rbtree (ascii "k") =
      value fresh.store.tables .rbtree (ascii "k") := read
  rw [left, right] at equal
  cases equal

end Beyond

/-! ## Every size of a log -/

theorem commaFree_of_named {args : List Bytes} {command : Command}
    (named : commandNamed (args.getD 0 []) = some command)
    (other : command.proc ≠ .setidx) :
    CommaFree args := by
  intro found same setidx
  rw [named] at same
  cases same
  exact absurd setidx other

/-- `DEL x` and `DEL xx`, whose frames differ by one byte. -/
def delShort : CompleteCommand :=
  { args := delArgs (ascii "x"), small := by decide }

def delLong : CompleteCommand :=
  { args := delArgs (ascii "xx"), small := by decide }

theorem loggable_set : Loggable setCommand :=
  { write := by decide
    free := @commaFree_of_named _ ⟨ascii "RSET", .rbtreeSet⟩ (by decide) nofun }

theorem loggable_reset : Loggable resetCommand :=
  { write := by decide
    free := @commaFree_of_named _ ⟨ascii "RSET", .rbtreeSet⟩ (by decide) nofun }

theorem loggable_delShort : Loggable delShort :=
  { write := by decide
    free := @commaFree_of_named _ ⟨ascii "DEL", .arrayDel⟩ (by decide) nofun }

theorem loggable_delLong : Loggable delLong :=
  { write := by decide
    free := @commaFree_of_named _ ⟨ascii "DEL", .arrayDel⟩ (by decide) nofun }

theorem loggable_log {filler : List CompleteCommand}
    (fills : ∀ command ∈ filler, Loggable command) :
    ∀ command ∈ filler ++ [setCommand] ++ [resetCommand],
      Loggable command := by
  intro command member
  rcases List.mem_append.mp member with front | last
  · rcases List.mem_append.mp front with inside | set
    · exact fills command inside
    · rw [List.mem_singleton.mp set]
      exact loggable_set
  · rw [List.mem_singleton.mp last]
    exact loggable_reset

/-- The first arguments of the commands below. -/
def fillerNames : List Bytes :=
  [ascii "k", ascii "x", ascii "xx"]

theorem filler_delShort : Filler fillerNames delShort :=
  { idle := idle_del _, listed := by decide, write := loggable_delShort.write }

theorem filler_delLong : Filler fillerNames delLong :=
  { idle := idle_del _, listed := by decide, write := loggable_delLong.write }

/-- Deletions of two keys fill every size from 380 bytes on. -/
theorem exists_filler {size : Nat} (least : 380 ≤ size) :
    ∃ filler : List CompleteCommand,
      (∀ command ∈ filler, Filler fillerNames command ∧ Loggable command) ∧
        (respStream (argLists filler)).length = size := by
  refine ⟨List.replicate (size / 20 - size % 20) delShort ++
    List.replicate (size % 20) delLong, ?_, ?_⟩
  · intro command member
    rcases List.mem_append.mp member with inside | inside
    · rw [List.eq_of_mem_replicate inside]
      exact ⟨filler_delShort, loggable_delShort⟩
    · rw [List.eq_of_mem_replicate inside]
      exact ⟨filler_delLong, loggable_delLong⟩
  · have first : (respEncode delShort.args).length = 20 := by decide
    have second : (respEncode delLong.args).length = 21 := by decide
    rw [argLists_append, respStream_append, List.length_append,
      respStream_replicate_length, respStream_replicate_length, first, second]
    omega

/-- A log of `2 ^ 31` bytes or more loses at least `2 ^ 32` bytes of its
window. -/
theorem window_of_large {log : List CompleteCommand}
    (large : 2 ^ 31 ≤ (respStream (argLists log)).length) :
    window log + 2 ^ 32 ≤ ((respStream (argLists log)).length : Int) := by
  have bounds := toInt32_bounds ((respStream (argLists log)).length : Int)
  obtain ⟨turns, same⟩ : ((2 ^ 32 : Nat) : Int) ∣
      ((respStream (argLists log)).length : Int) -
        toInt32 ((respStream (argLists log)).length : Int) :=
    Int.dvd_self_sub_bmod
  push_cast at same
  rw [window]
  omega

section Sizes

variable {flags : Flags} (off : flags.enableTtl = false)
  (logging : flags.logsWrites = true)

include off logging

/-- A snapshot that was saved behind the window of a log that is too large. -/
theorem large_not_converges {filler : List CompleteCommand}
    (fills : ∀ command ∈ filler, Filler fillerNames command)
    (large : 2 ^ 31 ≤ (respStream (argLists
      (filler ++ [setCommand] ++ [resetCommand]))).length) :
    ¬ Converges flags (filler ++ [setCommand]) [resetCommand] := by
  refine not_converges off logging (show fillerNames.length < slotLimit by
    decide) (by decide) fills ?_
  have reach := window_of_large large
  have last : (respStream (argLists [resetCommand])).length = 28 := by decide
  rw [argLists_append (filler ++ [setCommand]), respStream_append,
    List.length_append, last] at large reach
  omega

/--
A restart over the snapshot and the log rebuilds the maps of the log exactly
for the logs whose size is an `int`: for every such size it does so whatever
was logged and wherever the snapshot was saved, and for every larger size there
is a log and a place where it does not.
-/
theorem restart_converges_iff (size : Nat) :
    (∀ executed rest : List CompleteCommand,
        (∀ command ∈ executed ++ rest, Loggable command) →
        (respStream (argLists (executed ++ rest))).length = size →
        Converges flags executed rest) ↔
      size < 2 ^ 31 := by
  constructor
  · intro claimed
    by_contra large
    obtain ⟨filler, fills, length⟩ := @exists_filler (size - 56) (by omega)
    have frames : (respStream (argLists [setCommand])).length = 28 ∧
        (respStream (argLists [resetCommand])).length = 28 := by
      decide
    have whole : (respStream (argLists
        (filler ++ [setCommand] ++ [resetCommand]))).length = size := by
      rw [argLists_append, respStream_append, List.length_append,
        argLists_append, respStream_append, List.length_append, length,
        frames.1, frames.2]
      omega
    have loggable := loggable_log
      (fun command member => (fills command member).2)
    exact large_not_converges off logging
      (fun command member => (fills command member).1) (by omega)
      (claimed _ _ loggable whole)
  · intro small executed rest loggable length
    refine converges_of_inside off logging ?_ ?_
    · exact fun command member =>
        (loggable command (List.mem_append_left _ member)).free
    · have whole : window (executed ++ rest) = (size : Int) := by
        rw [window, length]
        exact toInt32_of_range (by omega) (by omega)
      rw [argLists_append, respStream_append, List.length_append] at length
      omega

end Sizes

/-- `RSET k v`, a snapshot, and `RSET k w`. -/
theorem restart_converges_set :
    Converges persistentFlags [setCommand] [resetCommand] := by
  have loggable : ∀ command ∈ [setCommand] ++ [resetCommand],
      Loggable command :=
    @loggable_log [] (fun _ member => absurd member List.not_mem_nil)
  exact (@restart_converges_iff persistentFlags rfl rfl 56).mpr (by decide) _ _
    loggable (by decide)

/-- Two hundred million times `DEL x`, `RSET k v`, a snapshot, and
`RSET k w`. -/
theorem restart_diverges :
    (∀ command ∈ List.replicate 200000000 delShort ++ [setCommand] ++
        [resetCommand], Loggable command) ∧
      ¬ Converges persistentFlags
        (List.replicate 200000000 delShort ++ [setCommand])
        [resetCommand] := by
  constructor
  · refine loggable_log ?_
    intro command member
    rw [List.eq_of_mem_replicate member]
    exact loggable_delShort
  · refine @large_not_converges persistentFlags rfl rfl
      (List.replicate 200000000 delShort) ?_ ?_
    · intro command member
      rw [List.eq_of_mem_replicate member]
      exact filler_delShort
    · have frame : (respEncode delShort.args).length = 20 := by decide
      rw [List.append_assoc, argLists_append, respStream_append,
        List.length_append, respStream_replicate_length, frame]
      omega

end Kivo.Persistence.Restart
