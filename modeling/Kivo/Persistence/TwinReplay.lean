import Kivo.Engine.TwinTables
import Kivo.Persistence.Log
import Kivo.Persistence.Replay

/-!
# Replaying one file into two sets of tables

A recovery takes its commands from the file alone: which frames it finds and
which handlers it calls does not depend on the tables.  Without TTL what a
handler does depends on the tables only through what their commands can tell
apart.  So the recovery of one file, whatever its bytes are, takes twins to
twins, also when the two recoveries find other clocks and draw other levels.
-/

namespace Kivo.Persistence.TwinReplay

open Kivo.Clib.Memory
open Kivo.Engine.Data
open Kivo.Engine.KeyMap
open Kivo.Engine.ArrayEngine
open Kivo.Engine.HashEngine
open Kivo.Engine.Maps
open Kivo.Engine.SkipRuns (Level)
open Kivo.Engine.Store
open Kivo.Engine.TwinTables
open Kivo.Resp.Frame
open Kivo.Resp.Stream
open Kivo.Server.State
open Kivo.Server.Commands
open Kivo.Server.CommandTable
open Kivo.Server
open Kivo.Server.Changes
open Kivo.Persistence.Log
open Kivo.Persistence.Replay

/-! ## Changes at two times -/

/-- The same change, made at two times. -/
inductive PairedChange : Change → Change → Prop where
  | keep : PairedChange .keep .keep
  | operate (table : Table) {operation other : Operation}
      (paired : Paired operation other)
      (same : table = .array → operation = other) :
      PairedChange (.operate table operation) (.operate table other)
  | append (key id : Bytes) :
      PairedChange (.append key id) (.append key id)
  | zadd (timestamp : Int) (id : Bytes) :
      PairedChange (.zadd timestamp id) (.zadd timestamp id)

theorem PairedChange.unless {change other : Change}
    (paired : PairedChange change other) (misused : Bool) :
    PairedChange (Change.unless misused change)
      (Change.unless misused other) := by
  cases misused with
  | false => exact paired
  | true => exact .keep

/-- Paired changes keep twins twins. -/
theorem change_twins {live replayed : Tables} (twins : Twins live replayed)
    {change other : Change} (paired : PairedChange change other)
    (level another : Level) :
    Twins (change.apply level live) (other.apply another replayed) := by
  cases paired with
  | keep => exact twins
  | operate table paired same =>
      exact twins.operate paired table same level another
  | append key id => exact twins.append key id
  | zadd timestamp id => exact twins.zsetAdd timestamp id level another

/-- One request, met by two servers without TTL. -/
structure Shared (left right : Call) : Prop where
  mem : left.mem = right.mem
  req : left.req = right.req
  flags : left.flags = right.flags
  off : left.flags.enableTtl = false

section Shared

variable {left right : Call} (shared : Shared left right)

include shared

theorem Shared.arg (index : Nat) : left.arg index = right.arg index := by
  rw [Call.arg, Call.arg, shared.mem, shared.req]

theorem Shared.argc : left.argc = right.argc := by
  rw [Call.argc, Call.argc, shared.req]

theorem Shared.number (index : Nat) :
    left.number index = right.number index := by
  rw [Call.number, Call.number, shared.mem, shared.req]

theorem Shared.expireOf : expireOf left = 0 ∧ expireOf right = 0 := by
  have off := shared.off
  refine ⟨if_neg (by rw [off]; decide), if_neg ?_⟩
  rw [← shared.flags, off]
  decide

theorem Shared.setting (misused : Bool) (table : Table) {time other : Int}
    (same : table = .array → time = other) :
    PairedChange (Call.setting left misused table time)
      (Call.setting right misused table other) := by
  rw [Call.setting, Call.setting, shared.arg, shared.arg]
  refine PairedChange.unless (.operate table (.set _ _ _ _) ?_) misused
  intro array
  rw [same array]

theorem Shared.deleting (misused : Bool) (table : Table) :
    PairedChange (Call.deleting left misused table)
      (Call.deleting right misused table) := by
  rw [Call.deleting, Call.deleting, shared.arg]
  exact PairedChange.unless (.operate table (.del _) (fun _ => rfl)) misused

theorem Shared.modifying (table : Table) :
    PairedChange (Call.modifying left table)
      (Call.modifying right table) := by
  rw [Call.modifying, Call.modifying, shared.arg, shared.arg, shared.argc]
  exact PairedChange.unless (.operate table (.mod _ _ _ _) (fun _ => rfl)) _

/-- Both servers change their tables alike. -/
theorem Shared.change (proc : Proc) :
    PairedChange (Call.change left proc) (Call.change right proc) := by
  obtain ⟨leftZero, rightZero⟩ := shared.expireOf
  have timed : ∀ misused table,
      PairedChange
        (Call.setting left misused table (Commands.expireOf left))
        (Call.setting right misused table (Commands.expireOf right)) :=
    fun misused table => shared.setting misused table
      (fun _ => leftZero.trans rightZero.symm)
  have untimed : ∀ misused table,
      PairedChange (Call.setting left misused table 0)
        (Call.setting right misused table 0) :=
    fun misused table => shared.setting misused table (fun _ => rfl)
  cases proc with
  | arraySet =>
      rw [Call.change, Call.change, shared.argc]
      exact timed _ _
  | arrayDel =>
      rw [Call.change, Call.change, shared.argc]
      exact shared.deleting _ _
  | arrayMod => exact shared.modifying _
  | rbtreeSet =>
      rw [Call.change, Call.change, shared.argc]
      exact timed _ _
  | rbtreeDel =>
      rw [Call.change, Call.change, shared.argc]
      exact shared.deleting _ _
  | rbtreeMod => exact shared.modifying _
  | hashSet =>
      rw [Call.change, Call.change, shared.argc]
      exact timed _ _
  | hashDel =>
      rw [Call.change, Call.change, shared.argc]
      exact shared.deleting _ _
  | hashMod => exact shared.modifying _
  | keep =>
      rw [Call.change, Call.change, shared.argc]
      exact untimed _ _
  | setctx =>
      rw [Call.change, Call.change, shared.argc]
      exact shared.setting _ _ (fun array => Table.noConfusion array)
  | delctx =>
      rw [Call.change, Call.change, shared.argc]
      exact shared.deleting _ _
  | setrec =>
      rw [Call.change, Call.change, shared.argc]
      exact untimed _ _
  | setidx =>
      rw [Call.change, Call.change, shared.argc, shared.arg, shared.arg]
      exact PairedChange.unless (.append _ _) _
  | skipSet =>
      rw [Call.change, Call.change, shared.argc]
      exact timed _ _
  | skipDel =>
      rw [Call.change, Call.change, shared.argc]
      exact shared.deleting _ _
  | skipMod => exact shared.modifying _
  | zadd =>
      rw [Call.change, Call.change, shared.argc, shared.number, shared.arg]
      exact PairedChange.unless (PairedChange.unless (.zadd _ _) _) _
  | _ => exact .keep

end Shared

/-! ## Recoveries -/

/-- The tables of two sessions are twins. -/
def TwinSessions (live replayed : Session Store) : Prop :=
  Twins live.globals.store.tables replayed.globals.store.tables

section Recoveries

variable {flags : Flags} (off : flags.enableTtl = false)

include off

/-- A command keeps twins twins. -/
theorem kvsExecuteBatch_twins {live replayed : Globals Store}
    (twins : Twins live.store.tables replayed.store.tables) (mem : Bytes)
    (req : RespRequest) (cmd : Option Command) :
    Twins (kvsExecuteBatch flags live mem req cmd).1.store.tables
      (kvsExecuteBatch flags replayed mem req cmd).1.store.tables := by
  cases cmd with
  | none => exact twins
  | some command =>
      have left := @Proc.run_call (nextCall flags live mem req) command.proc
        (Or.inl off) (tick live)
      have right := @Proc.run_call (nextCall flags replayed mem req)
        command.proc (Or.inl off) (tick replayed)
      rw [kvsExecuteBatch, kvsExecuteBatch, left, right]
      have shared : Shared (nextCall flags live mem req)
          (nextCall flags replayed mem req) := ⟨rfl, rfl, rfl, off⟩
      exact change_twins twins (shared.change command.proc) _ _

theorem recoverCommand_twins {mem : Bytes} {cmdRawPtr singleCmdLen : Int}
    {live replayed next : Session Store} (twins : TwinSessions live replayed)
    (done : recoverCommand (commandLayer flags) mem cmdRawPtr singleCmdLen
      live = some next) :
    ∃ after,
      recoverCommand (commandLayer flags) mem cmdRawPtr singleCmdLen
          replayed = some after ∧
        TwinSessions next after := by
  refine ⟨_, recoverCommand_passes done _ replayed, ?_⟩
  rw [← replayCommand_of_recoverCommand done]
  exact kvsExecuteBatch_twins off twins mem _ _

/-- The recovery of one file takes twins to twins. -/
theorem kvsPersistenceRecover_twins {fuel : Nat} {a b : Aof}
    (file : a.file = b.file) {live replayed : Session Store}
    (twins : TwinSessions live replayed) {result : Aof × Session Store}
    (ended : kvsPersistenceRecover (commandLayer flags) fuel a live =
      some result) :
    ∃ final,
      kvsPersistenceRecover (commandLayer flags) fuel b replayed =
        some final ∧
      TwinSessions result.2 final.2 := by
  rw [kvsPersistenceRecover] at ended ⊢
  rw [← file]
  by_cases empty : a.file.length = 0
  · rw [if_pos empty] at ended ⊢
    cases ended
    exact ⟨_, rfl, twins⟩
  · rw [if_neg empty] at ended ⊢
    obtain ⟨pair, replay, shape⟩ := Option.map_eq_some_iff.mp ended
    subst shape
    rw [protocolProcessRecover] at replay ⊢
    by_cases nothing : toInt32 (a.file.length : Int) ≤ 0
    · rw [if_pos nothing] at replay ⊢
      cases replay
      exact ⟨_, rfl, twins⟩
    · rw [if_neg nothing] at replay ⊢
      obtain ⟨final, again, kept⟩ := frameLoop_related
        (recoverCommand_twins off) twins replay
      rw [again]
      exact ⟨_, rfl, kept⟩

end Recoveries

/-! ## What twins have in common -/

/-- A table other than the array reads what its map holds. -/
theorem get_map {tables : Tables} (valid : Valid tables) {table : Table}
    (keyed : table ≠ .array) (now : Int) (key : Bytes) :
    tables.get false now key table =
      (Tables.map tables table key).map Item.value := by
  have read := congrArg Prod.snd (@operate_map tables valid false default
    table (.get now key) (fun sets => absurd sets id))
  rw [Contents.step, purge_false] at read
  cases table with
  | array => exact absurd rfl keyed
  | rbtree => exact Answer.value.inj read
  | hash name => exact Answer.value.inj read
  | skip => exact Answer.value.inj read

/-- A pair is stored in a table other than the array exactly when its map
holds it. -/
theorem mem_entries_map {tables : Tables} (valid : Valid tables)
    {table : Table} (keyed : table ≠ .array) (key value : Bytes) :
    (∃ time, { key := key, value := value, expireTime := time } ∈
        tables.entries table) ↔
      (Tables.map tables table key).map Item.value = some value := by
  have distinct := valid.distinct table
  have all : tables.keyed table = tables.entries table := by
    cases table with
    | array => exact absurd rfl keyed
    | _ => rfl
  rw [Tables.map, Option.map_eq_some_iff, ← all]
  constructor
  · rintro ⟨time, member⟩
    exact ⟨_, (mem_iff_contents distinct _).mp member, rfl⟩
  · rintro ⟨found, here, rfl⟩
    exact ⟨_, (contents_eq_some_iff distinct).mp here⟩

/-- A table other than the array is the same map when its keys hold the same
values. -/
theorem sameMap_of_values {live replayed : Tables} (valid : Valid live)
    (rebuilt : Valid replayed) {table : Table} (keyed : table ≠ .array)
    (values : SameValued (Tables.map live table)
      (Tables.map replayed table)) :
    SameMap live replayed table := by
  refine ⟨fun now key => ?_, fun key value => ?_⟩
  · rw [get_map valid keyed, get_map rebuilt keyed]
    exact values key
  · rw [mem_entries_map valid keyed, mem_entries_map rebuilt keyed]
    exact iff_of_eq (congrArg (· = some value) (values key))

/-- Twins hold the same map from keys to values in every table. -/
theorem Twins.sameMap {live replayed : Tables} (twins : Twins live replayed)
    (table : Table) :
    SameMap live replayed table := by
  by_cases array : table = .array
  · subst array
    refine ⟨fun now key => ?_, fun key value => ?_⟩
    · rw [Tables.get, Tables.get, twins.array]
    · rw [Tables.entries, Tables.entries, twins.array]
  · exact sameMap_of_values twins.valid twins.rebuilt array
      (twins.views table).values

/-- Tables without entries are twins of fresh ones. -/
theorem twins_create {tables : Tables} (valid : Valid tables)
    (empty : ∀ table, tables.entries table = []) :
    Twins tables Tables.create := by
  have array : tables.array = Tables.create.array := by
    have items : tables.array.items = [] :=
      List.map_eq_nil_iff.mp (empty .array)
    exact congrArg KvsArray.mk items
  have map : ∀ table, Tables.map tables table = Contents.empty := by
    intro table
    cases table with
    | array =>
        rw [Tables.map, Tables.keyed, array]
        rfl
    | rbtree => exact congrArg contents (empty .rbtree)
    | hash name => exact congrArg contents (empty (.hash name))
    | skip => exact congrArg contents (empty .skip)
  refine ⟨valid, valid_create, array, fun table => ⟨?_, ?_⟩⟩
  · intro key
    have same := (map table).trans (map_create table).symm
    exact congrArg (Option.map Item.value) (congrFun same key)
  · cases table with
    | array =>
        rw [Tables.view, Tables.view, array]
    | _ => rfl

end Kivo.Persistence.TwinReplay
