import Kivo.Persistence.Startup

/-!
# The vector index beside the kept answers

`KEEP` stores an answer in `global_hash1` and enters its question in
`global_vector_index`; `MATCH` looks for the closest question in the index and
reads the answer from the table.  The two are kept in step by nothing but the
order of the calls in `cmd_keep`.

Two things separate them.  An entry of the index has room for 127 bytes and
ends at the first NUL, while the table takes the question as it is.  And
`init_kvengine` resets the index behind the replay of the log, so the entries
that the replay made are gone while the answers stay.
-/

namespace Kivo.Persistence.SemanticCache

open Kivo.Clib.Memory
open Kivo.Engine.Data
open Kivo.Engine.KeyMap
open Kivo.Engine.HashTable
open Kivo.Engine.Store
open Kivo.Engine.Maps
open Kivo.Resp.Frame
open Kivo.Resp.Reply
open Kivo.Resp.Stream
open Kivo.Server.State
open Kivo.Server.Commands
open Kivo.Server.CommandTable
open Kivo.Server.Requests
open Kivo.Server.Changes
open Kivo.Persistence.Log
open Kivo.Persistence.Snapshot
open Kivo.Persistence.Replay
open Kivo.Persistence.Recovery (kvsPersistenceRecover_unique)
open Kivo.Persistence.Startup

/-! ## A server over its restarts -/

/-- The running process and the files it has written. -/
structure Server where
  globals : Globals Store
  disk : Disk

/-- A server that has never run before. -/
def Server.fresh (worlds : Nat → World) : Server :=
  { globals := freshGlobals worlds, disk := Disk.empty }

/-- Everything that was handed to the log. -/
def Server.logged (server : Server) : Bytes :=
  server.disk.log ++ server.globals.persisted.flatten

/-- The files behind the end of a process, with as much of the log as has
reached the disk. -/
def Server.stopped (survives : Nat) (server : Server) : Disk :=
  { server.disk with log := server.logged.take survives }

/-- The arguments of a `KEEP` command. -/
def keepCommand (key value : Bytes) : List Bytes :=
  [ascii "KEEP", key, value]

/--
What happens to the server: a frame with a `KEEP` command arrives in a receive
buffer, a snapshot is written by the child of `SAVE` or by `dest_kvengine`, or
the process ends and a new one starts.
-/
inductive Event where
  | keep (fd : Int) (mem : Bytes) (address : Int) (key value : Bytes)
  | save (luck : SaveLuck) (now : Int)
  | restart (survives : Nat) (boot : Boot)

/-- The body of `protocol_process_stream` on the frame of a `KEEP` command. -/
def Server.keep
    (config : Config)
    (fd : Int)
    (mem : Bytes)
    (address : Int)
    (key value : Bytes)
    (server : Server) :
    Server :=
  { server with
    globals := (serveCommand (commandLayer config.flags) config.flags fd
      mem address (respEncode (keepCommand key value)).length
      { globals := server.globals
        wbuf := none
        executed := [] }).globals }

/-- `kvs_snapshot_save` of the current tables. -/
def Server.save
    (config : Config)
    (luck : SaveLuck)
    (now : Int)
    (server : Server) :
    Server :=
  { server with
    disk :=
      { server.disk with
        snapshot := (kvsSnapshotSave luck config.flags.enableTtl now
          server.globals.store.tables server.disk.snapshot).1 } }

/-- One event; a restart ends when the replay of the log does. -/
inductive Step (config : Config) : Server → Event → Server → Prop where
  | keep
      (server : Server)
      (fd : Int)
      (mem : Bytes)
      (address : Int)
      (key value : Bytes) :
      Step config server (.keep fd mem address key value)
        (server.keep config fd mem address key value)
  | save (server : Server) (luck : SaveLuck) (now : Int) :
      Step config server (.save luck now) (server.save config luck now)
  | restart
      {server : Server}
      {survives : Nat}
      {boot : Boot}
      {fuel : Nat}
      {globals : Globals Store}
      (started : initKvengine config fuel (server.stopped survives) boot =
        some globals) :
      Step config server (.restart survives boot)
        { globals := globals, disk := server.stopped survives }

/-- A sequence of events. -/
inductive Run (config : Config) : Server → List Event → Server → Prop where
  | nil (server : Server) : Run config server [] server
  | snoc
      {start before after : Server}
      {events : List Event}
      {event : Event}
      (run : Run config start events before)
      (step : Step config before event after) :
      Run config start (events ++ [event]) after

/-! ## What is to hold -/

/-- The index holds the keys of the table. -/
def SameKeys (store : Store) : Prop :=
  ∀ key, key ∈ store.vectorIndex ↔
    Tables.map store.tables (.hash .hash1) key ≠ none

/-- A `MATCH` that finds a question is answered with a value. -/
def Answers (store : Store) : Prop :=
  ∀ (call : Call) (key : Bytes),
    call.argc = 2 →
    matchFindBestKey call store.vectorIndex = .found key →
      ∃ value, value ≠ [] ∧
        (cmdMatch call store).2 = RespReply.bulk value

/-- What the sequences are about: frames in their buffers with a question and
an answer that are not empty, and an embedding service that answers. -/
def Event.Proper : Event → Prop
  | .keep _ mem address key value =>
      key ≠ [] ∧ value ≠ [] ∧
        Holds mem address (respEncode (keepCommand key value)) ∧
        (respEncode (keepCommand key value)).length < 2 ^ 31
  | .save _ _ => True
  | .restart _ boot => ∀ tick, (boot.worlds tick).vector = true

/-- The number of `KEEP` commands. -/
def keeps : List Event → Nat
  | [] => 0
  | .keep _ _ _ _ _ :: events => keeps events + 1
  | _ :: events => keeps events

/-- A question fits an entry of the index. -/
def Fits (key : Bytes) : Prop :=
  key.length < maxKeyLen ∧ (0 : UInt8) ∉ key

/-- The question of an event fits an entry of the index. -/
def Event.Fits : Event → Prop
  | .keep _ _ _ key _ => SemanticCache.Fits key
  | .save _ _ => True
  | .restart _ _ => True

/-- A start finds neither a record of `global_hash1` in the snapshot that it
loads nor a complete command in the log that it replays. -/
def Forgets (config : Config) (disk : Disk) (boot : Boot) : Prop :=
  (config.enableSnapshot = true →
    ∀ record ∈ loadedRecords boot.mapped boot.now disk.snapshot,
      record.table ≠ .hash .hash1) ∧
  (config.flags.logsWrites = true →
    hasCompleteRespCommand disk.log 0 (toInt32 disk.log.length) = none)

/-- Every restart of a sequence of events forgets. -/
def Forgetful (config : Config) (start : Server) (events : List Event) :
    Prop :=
  ∀ front survives boot server,
    front ++ [.restart survives boot] <+: events →
    Run config start front server →
      Forgets config (server.stopped survives) boot

/-! ## The state between two events -/

/-- What holds between two events, behind a number of `KEEP` commands. -/
structure Kept (count : Nat) (store : Store) : Prop where
  valid : Valid store.tables
  bound : store.vectorIndex.length ≤ count
  keys : SameKeys store
  values : ∀ key item,
    Tables.map store.tables (.hash .hash1) key = some item →
      item.value ≠ [] ∧ item.expireTime = 0
  copied : ∀ entry ∈ store.vectorIndex,
    ∃ text, entry = (cString text).take (maxKeyLen - 1)
  embedding : ∀ tick, (store.worlds tick).vector = true

/-- The table has no more keys than the index has entries. -/
theorem Kept.size_le
    {count : Nat}
    {store : Store}
    (kept : Kept count store) :
    (Tables.map store.tables (.hash .hash1)).size ≤ count := by
  have inside : { key | Tables.map store.tables (.hash .hash1) key ≠ none } ⊆
      (store.vectorIndex.toFinset : Set Bytes) := by
    intro key present
    rw [Finset.mem_coe, List.mem_toFinset]
    exact (kept.keys key).mpr present
  calc (Tables.map store.tables (.hash .hash1)).size
      ≤ Set.ncard (store.vectorIndex.toFinset : Set Bytes) :=
        Set.ncard_le_ncard inside (Finset.finite_toSet _)
    _ = store.vectorIndex.toFinset.card := Set.ncard_coe_finset _
    _ ≤ store.vectorIndex.length := List.toFinset_card_le _
    _ ≤ count := kept.bound

/-- As long as the index takes entries, the table takes keys. -/
theorem Kept.room
    {count : Nat}
    {store : Store}
    (kept : Kept count store)
    (few : count < maxVectorIndex)
    (key : Bytes) :
    ¬ Refuses store.tables key (.hash .hash1) := by
  intro full
  have size := map_hash_size kept.valid .hash1
  rw [Refuses] at full
  rw [full] at size
  have small := kept.size_le
  have limits : maxVectorIndex ≤ slotLimit := by decide
  omega

/-- A question that fits an entry of the index is copied as it is. -/
theorem entry_of_fits
    {key : Bytes}
    (fits : Fits key) :
    (cString key).take (maxKeyLen - 1) = key := by
  rw [cString_of_nulFree fits.2, List.take_of_length_le]
  have length := fits.1
  omega

/-- A question that does not fit is not among the entries of the index. -/
theorem entry_ne_of_unfit
    {key : Bytes}
    (unfit : ¬ Fits key)
    (other : Bytes) :
    (cString other).take (maxKeyLen - 1) ≠ key := by
  rintro rfl
  refine unfit ⟨?_, ?_⟩
  · rw [List.length_take]
    have limit : maxKeyLen = 128 := rfl
    omega
  · intro nul
    have passed := List.mem_takeWhile_imp (List.mem_of_mem_take nul)
    simp at passed

/-! ## One command -/

section Commands

variable {call : Call} {key value : Bytes} {store : Store} {count : Nat}
  (arrived : Arrived call.mem call.req (keepCommand key value))
  (vector : call.world.vector = true)
  (kept : Kept count store)
  (few : count < maxVectorIndex)

include arrived vector kept few

/-- What `cmd_keep` does while there is room. -/
theorem cmdKeep_stores :
    ∃ tables,
      (cmdKeep call store).1 =
          { store with
            tables := tables
            vectorIndex := store.vectorIndex ++
              [(cString key).take (maxKeyLen - 1)] } ∧
        Valid tables ∧
        Tables.map tables (.hash .hash1) =
          (Tables.map store.tables (.hash .hash1)).set key
            { value := value, expireTime := 0 } := by
  have first : call.arg 1 = key := arg_eq arrived 1
  have second : call.arg 2 = value := arg_eq arrived 2
  have enough : ¬ call.argc < 3 := by
    rw [Call.argc, arrived.argc]
    exact Int.lt_irrefl 3
  have called := operate_map kept.valid call.flags.enableTtl
    call.world.level (.hash .hash1)
    (fun _ : Operation.Sets (.set key value 0) =>
      ⟨kept.room few key, fun lost => Table.noConfusion lost.1⟩)
  have stored := congrArg Prod.fst called
  have answer : (store.tables.operate call.flags.enableTtl call.world.level
      (.hash .hash1) (.set key value 0)).2 = .status 0 :=
    congrArg Prod.snd called
  rw [cmdKeep, if_neg enough, first, second]
  dsimp only [Store.operate]
  rw [answer]
  have space : ¬ maxVectorIndex ≤ store.vectorIndex.length := by
    have bound := kept.bound
    omega
  rw [if_neg (show ¬ codeOf (.status 0) ≠ 0 by decide), keepBuildIndex,
    if_neg (by rw [vector]; decide), if_neg space]
  exact ⟨_, rfl, kept.valid.operate _ _ _ _, stored⟩

/-- A question that fits leaves the two in step. -/
theorem cmdKeep_kept
    (answered : value ≠ [])
    (fits : Fits key) :
    Kept (count + 1) (cmdKeep call store).1 := by
  obtain ⟨tables, done, valid, map⟩ :=
    cmdKeep_stores arrived vector kept few
  rw [done, entry_of_fits fits]
  constructor
  · exact valid
  · dsimp only
    rw [List.length_append]
    exact Nat.add_le_add_right kept.bound 1
  · intro other
    dsimp only
    rw [map, Contents.set, List.mem_append, List.mem_singleton,
      kept.keys other]
    by_cases same : other = key
    · simp [same]
    · simp [same]
  · intro other item found
    dsimp only at found
    rw [map, Contents.set] at found
    split_ifs at found with same
    · cases found
      exact ⟨answered, rfl⟩
    · exact kept.values other item found
  · intro entry member
    rw [List.mem_append, List.mem_singleton] at member
    rcases member with earlier | rfl
    · exact kept.copied entry earlier
    · exact ⟨entry, (entry_of_fits fits).symm⟩
  · exact kept.embedding

/-- A question that does not fit is in the table and not in the index. -/
theorem cmdKeep_apart
    (unfit : ¬ Fits key) :
    ¬ SameKeys (cmdKeep call store).1 := by
  obtain ⟨tables, done, -, map⟩ := cmdKeep_stores arrived vector kept few
  intro same
  have present : key ∈ (cmdKeep call store).1.vectorIndex := by
    rw [same key, done, map, Contents.set, if_pos rfl]
    exact Option.some_ne_none _
  rw [done, List.mem_append, List.mem_singleton] at present
  rcases present with earlier | new
  · obtain ⟨text, copied⟩ := kept.copied key earlier
    exact entry_ne_of_unfit unfit text copied.symm
  · exact entry_ne_of_unfit unfit key new.symm

end Commands

/-- A question of the index has its answer in the table. -/
theorem Kept.answers
    {count : Nat}
    {store : Store}
    (kept : Kept count store) :
    Answers store := by
  intro call key two found
  have member : key ∈ store.vectorIndex := by
    rw [matchFindBestKey] at found
    split_ifs at found
    split at found
    · cases found
    · next other chosen =>
        cases found
        obtain ⟨position, -, here⟩ := Option.bind_eq_some_iff.mp chosen
        exact List.mem_of_getElem? here
  obtain ⟨item, stored⟩ :=
    Option.ne_none_iff_exists'.mp ((kept.keys key).mp member)
  obtain ⟨proper, lasting⟩ := kept.values key item stored
  have alive : ¬ Expired call.flags.enableTtl (call.world.now 0)
      item.expireTime := by
    rw [lasting]
    exact fun late => absurd late.2.1 (by decide)
  have read : (store.tables.operate call.flags.enableTtl call.world.level
      (.hash .hash1) (.get (call.world.now 0) key)).2 =
        .value (some item.value) := by
    have called := operate_map kept.valid call.flags.enableTtl
      call.world.level (.hash .hash1)
      (fun sets : Operation.Sets (.get (call.world.now 0) key) =>
        absurd sets id)
    refine (congrArg Prod.snd called).trans ?_
    rw [Contents.step]
    dsimp only
    rw [purge_self, stored, Option.filter_some, decide_eq_true alive]
    rfl
  refine ⟨item.value, proper, ?_⟩
  rw [cmdMatch, if_neg (fun wrong => wrong two), found]
  dsimp only [Store.operate]
  rw [read]
  have nonempty : ¬ item.value.length = 0 :=
    fun empty => proper (List.eq_nil_of_length_eq_zero empty)
  exact congrArg Prod.snd (if_neg nonempty)

/-! ## One event -/

/-- The frame of a `KEEP` command is handed to `cmd_keep`. -/
theorem keep_store
    {mem : Bytes}
    {address : Int}
    {key value : Bytes}
    (stored : Holds mem address (respEncode (keepCommand key value)))
    (small : (respEncode (keepCommand key value)).length < 2 ^ 31)
    (config : Config)
    (fd : Int)
    (server : Server) :
    (server.keep config fd mem address key value).globals.store =
      (cmdKeep
        (callOf config.flags mem address (keepCommand key value)
          server.globals)
        (tick server.globals).store).1 := by
  have ordinary : sameName ((keepCommand key value).getD 0 [])
      (ascii "PING") = false := by
    rw [keepCommand, List.getD_cons_zero]
    decide
  have local_ : (config.flags.enableReplMaster &&
      sameName ((keepCommand key value).getD 0 [])
        (ascii "RDMA_CONNECT")) = false := by
    rw [keepCommand, List.getD_cons_zero]
    exact Bool.and_eq_false_iff.mpr (Or.inr (by decide))
  have named : commandNamed ((keepCommand key value).getD 0 []) =
      some ⟨ascii "KEEP", .keep⟩ := by
    rw [keepCommand, List.getD_cons_zero]
    decide +kernel
  rw [Server.keep, serveCommand_encode config.flags fd stored small ordinary
    local_]
  dsimp only
  rw [named, kvsExecuteBatch, nextCall, prepared_store, tick, prepared_store]
  rfl

/-- A start that forgets ends, and nothing is in the table or in the index. -/
theorem initKvengine_forgets
    {config : Config}
    {disk : Disk}
    {boot : Boot}
    (forgets : Forgets config disk boot) :
    (∃ fuel globals, initKvengine config fuel disk boot = some globals) ∧
      ∀ fuel globals, initKvengine config fuel disk boot = some globals →
        globals = keepIndexInit (boot.loaded config disk) := by
  by_cases logging : config.flags.logsWrites = true
  · obtain ⟨next, idle⟩ := kvsPersistenceRecover_idle
      (commandLayer config.flags)
      (show hasCompleteRespCommand (kvsPersistenceInit disk.log).file 0
          (toInt32 (kvsPersistenceInit disk.log).file.length) = none from
        forgets.2 logging)
      { globals := boot.loaded config disk, wbuf := none, executed := [] } 0
    constructor
    · refine ⟨1, keepIndexInit (boot.loaded config disk), ?_⟩
      rw [initKvengine, if_pos logging, idle]
      rfl
    · intro fuel globals started
      rw [initKvengine, if_pos logging] at started
      obtain ⟨recovered, done, rfl⟩ := Option.map_eq_some_iff.mp started
      obtain ⟨⟨other, session⟩, replayed, rfl⟩ :=
        Option.map_eq_some_iff.mp done
      cases kvsPersistenceRecover_unique replayed idle
      rfl
  · constructor
    · refine ⟨0, keepIndexInit (boot.loaded config disk), ?_⟩
      rw [initKvengine, if_neg logging]
      rfl
    · intro fuel globals started
      rw [initKvengine, if_neg logging] at started
      cases started
      rfl

theorem initKvengine_kept
    {config : Config}
    {disk : Disk}
    {boot : Boot}
    (forgets : Forgets config disk boot)
    (embedding : ∀ tick, (boot.worlds tick).vector = true)
    (count : Nat) :
    Kept count (keepIndexInit (boot.loaded config disk)).store := by
  have empty := loaded_map_empty forgets.1
  constructor
  · exact loaded_valid config disk boot
  · exact Nat.zero_le count
  · intro key
    constructor
    · intro member
      cases member
    · intro present
      exact absurd (congrFun empty key) present
  · intro key item found
    have none : Tables.map (boot.loaded config disk).store.tables
        (.hash .hash1) key = none := congrFun empty key
    exact absurd (none.symm.trans found) nofun
  · intro entry member
    cases member
  · intro tick
    rw [keepIndexInit]
    dsimp only
    rw [loaded_worlds]
    exact embedding tick

/-- What one event keeps. -/
theorem Step.kept
    {config : Config}
    {before after : Server}
    {event : Event}
    {count : Nat}
    (step : Step config before event after)
    (proper : event.Proper)
    (few : count + keeps [event] ≤ maxVectorIndex)
    (fits : event.Fits)
    (forgets : ∀ survives boot, event = .restart survives boot →
      Forgets config (before.stopped survives) boot)
    (kept : Kept count before.globals.store) :
    Kept (count + keeps [event]) after.globals.store := by
  cases step with
  | keep fd mem address key value =>
      obtain ⟨-, answered, stored, small⟩ := proper
      have ticked : Kept count (tick before.globals).store :=
        ⟨kept.valid, kept.bound, kept.keys, kept.values, kept.copied,
          kept.embedding⟩
      rw [keep_store stored small]
      exact cmdKeep_kept (arrived_encode stored small) (kept.embedding _)
        ticked few answered fits
  | save luck now => exact kept
  | restart started =>
      have empty := forgets _ _ rfl
      rw [(initKvengine_forgets empty).2 _ _ started]
      exact initKvengine_kept empty proper _

/-- An event that is allowed takes place. -/
theorem exists_step
    {config : Config}
    {before : Server}
    {event : Event}
    (forgets : ∀ survives boot, event = .restart survives boot →
      Forgets config (before.stopped survives) boot) :
    ∃ after, Step config before event after := by
  cases event with
  | keep fd mem address key value => exact ⟨_, .keep before _ _ _ _ _⟩
  | save luck now => exact ⟨_, .save before _ _⟩
  | restart survives boot =>
      obtain ⟨fuel, globals, started⟩ :=
        (initKvengine_forgets (forgets survives boot rfl)).1
      exact ⟨_, .restart started⟩

/-! ## Runs -/

theorem keeps_append (first second : List Event) :
    keeps (first ++ second) = keeps first + keeps second := by
  induction first with
  | nil => exact (Nat.zero_add _).symm
  | cons event first induction =>
      cases event with
      | keep fd mem address key value =>
          rw [List.cons_append, keeps, keeps, induction]
          omega
      | save luck now => exact induction
      | restart survives boot => exact induction

theorem eq_of_run_nil
    {config : Config}
    {start after : Server}
    (run : Run config start [] after) :
    after = start := by
  generalize whole : ([] : List Event) = all at run
  cases run with
  | nil => rfl
  | snoc run step => exact absurd whole (by simp)

section Runs

variable {config : Config} {worlds : Nat → World}

/-- The part of the assumptions that is about a front part. -/
theorem Forgetful.front
    {start : Server}
    {front events : List Event}
    (forgetful : Forgetful config start events)
    (shorter : front <+: events) :
    Forgetful config start front := by
  intro earlier survives boot server longer
  exact forgetful earlier survives boot server (longer.trans shorter)

variable (embedding : ∀ tick, (worlds tick).vector = true)

include embedding

/-- What a run keeps. -/
theorem Run.kept
    {events : List Event}
    {server : Server}
    (run : Run config (Server.fresh worlds) events server)
    (proper : ∀ event ∈ events, event.Proper)
    (few : keeps events ≤ maxVectorIndex)
    (fits : ∀ event ∈ events, event.Fits)
    (forgetful : Forgetful config (Server.fresh worlds) events) :
    Kept (keeps events) server.globals.store := by
  induction run with
  | nil =>
      have empty := map_create (.hash .hash1)
      exact ⟨valid_create, Nat.le_refl 0,
        fun key => ⟨fun member => (nomatch member),
          fun present => absurd (congrFun empty key) present⟩,
        fun key item found =>
          absurd ((congrFun empty key).symm.trans found) nofun,
        fun entry member => (nomatch member), embedding⟩
  | @snoc before after events event run step induction =>
      rw [keeps_append] at few ⊢
      have kept := induction
        (fun other member => proper other (List.mem_append_left _ member))
        (by omega)
        (fun other member => fits other (List.mem_append_left _ member))
        (forgetful.front (List.prefix_append _ _))
      have last : event ∈ events ++ [event] :=
        List.mem_append_right _ List.mem_cons_self
      refine step.kept (proper event last) few (fits event last) ?_ kept
      rintro survives boot rfl
      exact forgetful events survives boot before List.prefix_rfl run

omit embedding in
/-- An allowed run takes place. -/
theorem exists_run
    {events : List Event}
    (forgetful : Forgetful config (Server.fresh worlds) events) :
    ∃ server, Run config (Server.fresh worlds) events server := by
  induction events using List.reverseRecOn with
  | nil => exact ⟨_, .nil _⟩
  | append_singleton events event induction =>
      obtain ⟨before, run⟩ :=
        induction (forgetful.front (List.prefix_append _ _))
      obtain ⟨after, step⟩ := @exists_step config before event (by
        rintro survives boot rfl
        exact forgetful events survives boot before List.prefix_rfl run)
      exact ⟨after, .snoc run step⟩

/-- A question that does not fit separates the two. -/
theorem fits_of_sameKeys
    {events : List Event}
    (proper : ∀ event ∈ events, event.Proper)
    (few : keeps events ≤ maxVectorIndex)
    (forgetful : Forgetful config (Server.fresh worlds) events)
    (same : ∀ front server, front <+: events →
      Run config (Server.fresh worlds) front server →
        SameKeys server.globals.store) :
    ∀ event ∈ events, event.Fits := by
  induction events using List.reverseRecOn with
  | nil => exact nofun
  | append_singleton events event induction =>
      rw [keeps_append] at few
      have early : ∀ other ∈ events, other.Proper :=
        fun other member => proper other (List.mem_append_left _ member)
      have shorter := forgetful.front (List.prefix_append events [event])
      have fits := induction early (by omega) shorter
        (fun front server inside => same front server
          (inside.trans (List.prefix_append _ _)))
      intro other member
      rcases List.mem_append.mp member with before | last
      · exact fits other before
      · rw [List.mem_singleton] at last
        subst last
        obtain ⟨server, run⟩ := exists_run shorter
        cases other with
        | keep fd mem address key value =>
            obtain ⟨-, answered, stored, small⟩ := proper _ member
            have kept := run.kept embedding early (by omega) fits shorter
            have ticked : Kept (keeps events) (tick server.globals).store :=
              ⟨kept.valid, kept.bound, kept.keys, kept.values, kept.copied,
                kept.embedding⟩
            by_contra unfit
            have stepped := same _ _ List.prefix_rfl
              (.snoc run (.keep server fd mem address key value))
            rw [keep_store stored small] at stepped
            exact cmdKeep_apart (arrived_encode stored small)
              (kept.embedding _) ticked few unfit stepped
        | save luck now => trivial
        | restart survives boot => trivial

/--
As long as no start restores an answer, every sequence of `KEEP` commands,
snapshots and restarts takes place, and in every state on the way the index
holds the keys of `global_hash1` and every best match has an answer, exactly
when every question is shorter than `MAX_KEY_LEN` and holds no NUL.
-/
theorem index_inStep_iff
    {events : List Event}
    (proper : ∀ event ∈ events, event.Proper)
    (few : keeps events < maxVectorIndex)
    (forgetful : Forgetful config (Server.fresh worlds) events) :
    ((∃ server, Run config (Server.fresh worlds) events server) ∧
        ∀ front server, front <+: events →
          Run config (Server.fresh worlds) front server →
            SameKeys server.globals.store ∧ Answers server.globals.store) ↔
      ∀ event ∈ events, event.Fits := by
  constructor
  · rintro ⟨-, holds⟩
    exact fits_of_sameKeys embedding proper (by omega) forgetful
      (fun front server inside run => (holds front server inside run).1)
  · intro fits
    refine ⟨exists_run forgetful, ?_⟩
    intro front server inside run
    obtain ⟨rest, rfl⟩ := inside
    rw [keeps_append] at few
    have kept := run.kept embedding
      (fun event member => proper event (List.mem_append_left _ member))
      (by omega)
      (fun event member => fits event (List.mem_append_left _ member))
      (forgetful.front (List.prefix_append _ _))
    exact ⟨kept.keys, kept.answers⟩

end Runs

/-- A world in which the embedding service answers. -/
def answeringWorld : World :=
  { (default : World) with vector := true }

/-- A start on a machine where everything succeeds. -/
def plainBoot : Boot :=
  { mapped := true
    draw := fun _ => 0
    now := 0
    worlds := fun _ => answeringWorld }

/-- A server that logs its writes and loads no snapshot. -/
def loggingConfig : Config :=
  { flags := persistentFlags, enableSnapshot := false }

/-- `KEEP q a`. -/
def keepQuestion : Event :=
  .keep 7 (respEncode (keepCommand (ascii "q") (ascii "a"))) 0 (ascii "q")
    (ascii "a")

theorem keepQuestion_proper : keepQuestion.Proper :=
  ⟨by decide, by decide, ⟨Int.le_refl 0, List.prefix_rfl⟩, by decide +kernel⟩

/-- A start over an empty disk, and then a question. -/
theorem index_inStep_question :
    (∃ server, Run loggingConfig (Server.fresh (fun _ => answeringWorld))
        [.restart 0 plainBoot, keepQuestion] server) ∧
      ∀ front server, front <+: [.restart 0 plainBoot, keepQuestion] →
        Run loggingConfig (Server.fresh (fun _ => answeringWorld)) front
          server →
          SameKeys server.globals.store ∧ Answers server.globals.store := by
  apply (index_inStep_iff (fun _ => rfl) ?_ (by decide) ?_).mpr
  · intro event member
    rw [List.mem_pair] at member
    rcases member with rfl | rfl
    · trivial
    · exact ⟨by decide, by decide⟩
  · intro event member
    rw [List.mem_pair] at member
    rcases member with rfl | rfl
    · exact fun _ => rfl
    · exact keepQuestion_proper
  · intro front survives boot server inside run
    cases front with
    | nil =>
        rw [eq_of_run_nil run]
        have lost : ((Server.fresh (fun _ => answeringWorld)).stopped
            survives).log = [] := List.take_nil
        refine ⟨nofun, fun _ => ?_⟩
        rw [lost]
        decide
    | cons first rest =>
        have later := (List.cons_prefix_cons.mp inside).2
        cases rest with
        | nil => exact nomatch (List.cons_prefix_cons.mp later).1
        | cons second rest =>
            exact absurd later.length_le (by simp)

/-- The question is in the log and its answer in the table again, but the index
is empty. -/
theorem index_reset :
    keepQuestion.Proper ∧
      ∃ server,
        Run loggingConfig (Server.fresh (fun _ => answeringWorld))
            [keepQuestion, .restart 100 plainBoot] server ∧
          ¬ SameKeys server.globals.store := by
  let asked := (Server.fresh (fun _ => answeringWorld)).keep loggingConfig 7
    (respEncode (keepCommand (ascii "q") (ascii "a"))) 0 (ascii "q")
    (ascii "a")
  have restored : (initKvengine loggingConfig 2 (asked.stopped 100)
      plainBoot).map (fun globals => (globals.store.vectorIndex,
        Tables.map globals.store.tables (.hash .hash1) (ascii "q"))) =
      some ([], some { value := ascii "a", expireTime := 0 }) := by
    decide +kernel
  obtain ⟨globals, started, shape⟩ := Option.map_eq_some_iff.mp restored
  have index : globals.store.vectorIndex = [] := congrArg Prod.fst shape
  have answer : Tables.map globals.store.tables (.hash .hash1) (ascii "q") =
      some { value := ascii "a", expireTime := 0 } := congrArg Prod.snd shape
  refine ⟨keepQuestion_proper,
    { globals := globals, disk := asked.stopped 100 },
    .snoc (.snoc (.nil _) (.keep _ _ _ _ _ _)) (.restart started), ?_⟩
  intro same
  have kept : ascii "q" ∈ globals.store.vectorIndex :=
    (same (ascii "q")).mpr (fun missing => nomatch answer.symm.trans missing)
  rw [index] at kept
  cases kept

end Kivo.Persistence.SemanticCache
