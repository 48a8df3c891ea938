import Kivo.Server.Requests

/-!
# What the handlers keep and what they answer

Every handler keeps the tables consistent.  Every reply is either a bare
status or a body, and the replies that `resp_pack` has no encoding for are
characterised by the command, its arguments and the store it meets.
-/

namespace Kivo.Server.Handlers

open Kivo.Clib.Memory
open Kivo.Clib.Numeral
open Kivo.Engine.KeyMap
open Kivo.Engine.ArrayEngine
open Kivo.Engine.HashEngine
open Kivo.Engine.HashTable (HashOk slotLimit nodes)
open Kivo.Engine.SkipEngine
open Kivo.Engine.SkipOrder
open Kivo.Engine.SkipRuns (Level)
open Kivo.Engine.Store
open Kivo.Resp.Frame
open Kivo.Resp.Reply
open Kivo.Resp.Stream
open Kivo.Server.State
open Kivo.Server.Expire
open Kivo.Server.Commands
open Kivo.Server.CommandTable
open Kivo.Server.Requests

/-! ## What a handler can do -/

/--
What a handler can do to the tables and to the expire system: nothing, a call
on one table, a call that sets an entry and hands over its timer, an addition
to a list of ids, the reading of records, or an addition to the time index.  A
timer without a positive time comes from `cmd_array_set` only.
-/
inductive Effect (proc : Proc) (call : Call) (before : Store) :
    Store → Prop where
  | idle {after : Store} (tables : after.tables = before.tables)
      (expire : after.expire = before.expire) :
      Effect proc call before after
  | operate {after : Store} (table : Table) (operation : Operation)
      (tables : after.tables =
        (before.operate call table operation).1.tables)
      (expire : after.expire = before.expire) :
      Effect proc call before after
  | timed {after : Store} (type : ExpireType) (key value : Bytes)
      (time : Int)
      (guarded : 0 < time ∨
        proc = .arraySet ∧ 3 ≤ call.argc ∧ key = call.arg 1 ∧
          time = parseTtl call)
      (tables : after.tables =
        (before.operate call type.table (.set key value time)).1.tables)
      (expire : after.expire =
        expirePushCmd call.world.stack type key time before.expire) :
      Effect proc call before after
  | append {after : Store} (key id : Bytes)
      (tables : after.tables =
        (before.setHash .hash4
          (kvsHashAppend call.flags.enableTtl (call.world.now 0)
            (before.tables.hashes .hash4) key 0 id).1).tables)
      (expire : after.expire = before.expire) :
      Effect proc call before after
  | records {between after : Store} (ids : List Bytes) (tick : Nat)
      (first : Effect proc call before between)
      (tables : after.tables =
        (between.setHash .hash3
          (buildRecords call.flags.enableTtl call.world.now ids tick
            (between.tables.hashes .hash3)).1).tables)
      (expire : after.expire = between.expire) :
      Effect proc call before after
  | zadd {after : Store} (timestamp : Int) (id : Bytes)
      (tables : after.tables =
        { before.tables with
          skip := (kvsZsetAdd before.tables.skip timestamp id
            call.world.level).1 })
      (expire : after.expire = before.expire) :
      Effect proc call before after

/-- The expire system stays as it is, or one timer is handed over.  A timer
without a positive time comes from `cmd_array_set`. -/
theorem Effect.expire_cases {proc : Proc} {call : Call} {before after : Store}
    (effect : Effect proc call before after) :
    after.expire = before.expire ∨
      ∃ type key time,
        after.expire =
            expirePushCmd call.world.stack type key time before.expire ∧
          (0 < time ∨
            proc = .arraySet ∧ 3 ≤ call.argc ∧ key = call.arg 1 ∧
              time = parseTtl call) := by
  induction effect with
  | idle tables expire => exact Or.inl expire
  | operate table operation tables expire => exact Or.inl expire
  | timed type key value time guarded tables expire =>
      exact Or.inr ⟨type, key, time, expire, guarded⟩
  | append key id tables expire => exact Or.inl expire
  | records ids tick first tables expire induction =>
      rw [expire]
      exact induction
  | zadd timestamp id tables expire => exact Or.inl expire

section Effects

variable {proc : Proc} {call : Call} {store : Store}

theorem effect_rfl : Effect proc call store store :=
  .idle rfl rfl

theorem effect_operate (table : Table) (operation : Operation) :
    Effect proc call store (store.operate call table operation).1 :=
  .operate table operation rfl rfl

theorem effect_reading (misused : Bool) (table : Table) :
    Effect proc call store (reading misused table call store).1 := by
  rw [reading]
  split_ifs
  · exact effect_rfl
  · exact effect_operate table _

theorem effect_deleting (misused : Bool) (table : Table) :
    Effect proc call store (deleting misused table call store).1 := by
  rw [deleting]
  split_ifs
  · exact effect_rfl
  · exact effect_operate table _

theorem effect_modifying (table : Table) :
    Effect proc call store (modifying table call store).1 := by
  rw [modifying]
  split_ifs
  · exact effect_rfl
  · exact effect_operate table _

theorem effect_testing (table : Table) :
    Effect proc call store (testing table call store).1 := by
  rw [testing]
  split_ifs
  · exact effect_rfl
  · exact effect_operate table _

theorem effect_timedSetting (type : ExpireType) :
    Effect proc call store (timedSetting type call store).1 := by
  rw [timedSetting]
  split_ifs
  · exact effect_rfl
  · dsimp only
    split_ifs with timer
    · exact .timed type _ _ _ (Or.inl timer.2.2) rfl rfl
    · exact effect_operate type.table _

theorem effect_cmdArraySet :
    Effect .arraySet call store (cmdArraySet call store).1 := by
  rw [cmdArraySet]
  split_ifs with few
  · exact effect_rfl
  · dsimp only
    split_ifs with timer
    · refine .timed .array _ _ _ (Or.inr ⟨rfl, ?_, rfl, ?_⟩) rfl rfl
      · exact Int.not_lt.mp few
      · exact if_pos timer.1
    · exact effect_operate .array _

theorem effect_cmdKeep : Effect proc call store (cmdKeep call store).1 := by
  rw [cmdKeep]
  split_ifs
  · exact effect_rfl
  · dsimp only
    split_ifs
    · exact effect_operate _ _
    · split
      · exact effect_operate _ _
      · exact .operate (.hash .hash1) _ rfl rfl

theorem effect_cmdMatch : Effect proc call store (cmdMatch call store).1 := by
  rw [cmdMatch]
  split_ifs
  · exact effect_rfl
  · split
    · exact effect_rfl
    · exact effect_rfl
    · dsimp only
      split_ifs <;> exact effect_operate _ _

theorem effect_cmdSetctx :
    Effect proc call store (cmdSetctx call store).1 := by
  rw [cmdSetctx]
  split_ifs
  · exact effect_rfl
  · dsimp only
    split_ifs with refused timer
    · exact effect_operate _ _
    · exact .timed .hash2 _ _ _ (Or.inl timer.2) rfl rfl
    · exact effect_operate _ _

theorem effect_cmdSetrec :
    Effect proc call store (cmdSetrec call store).1 := by
  rw [cmdSetrec]
  split_ifs
  · exact effect_rfl
  · exact effect_operate _ _

theorem effect_cmdSetidx :
    Effect proc call store (cmdSetidx call store).1 := by
  rw [cmdSetidx]
  split_ifs
  · exact effect_rfl
  · exact .append _ _ rfl rfl

theorem effect_cmdGetidxrec :
    Effect proc call store (cmdGetidxrec call store).1 := by
  rw [cmdGetidxrec]
  split_ifs
  · exact effect_rfl
  · dsimp only
    split_ifs
    · exact effect_operate _ _
    · exact effect_operate _ _
    · exact .records _ 1 (effect_operate _ _) rfl rfl

theorem effect_cmdZadd : Effect proc call store (cmdZadd call store).1 := by
  rw [cmdZadd]
  split_ifs
  · exact effect_rfl
  · dsimp only
    split_ifs
    · exact effect_rfl
    · exact .zadd _ _ rfl rfl

theorem effect_cmdZrange :
    Effect proc call store (cmdZrange call store).1 := by
  rw [cmdZrange]
  exact ranging_store effect_rfl (fun _ => effect_rfl)

theorem effect_cmdZrangerec :
    Effect proc call store (cmdZrangerec call store).1 := by
  rw [cmdZrangerec]
  exact ranging_store effect_rfl
    (fun ids => .records ids 0 effect_rfl rfl rfl)

theorem effect_cmdSysSave :
    Effect proc call store (cmdSysSave call store).1 := by
  rw [cmdSysSave]
  split_ifs <;> exact .idle rfl rfl

theorem effect_cmdSysMemtrim :
    Effect proc call store (cmdSysMemtrim call store).1 := by
  rw [cmdSysMemtrim]
  split_ifs <;> exact effect_rfl

end Effects

/-- What every handler does is one of the effects. -/
theorem Proc.run_effect (proc : Proc) (call : Call)
    (globals : Globals Store) :
    Effect proc call globals.store (proc.run call globals).1.store := by
  cases proc with
  | arraySet => exact effect_cmdArraySet
  | arrayGet => exact effect_reading _ _
  | arrayDel => exact effect_deleting _ _
  | arrayMod => exact effect_modifying _
  | arrayExists => exact effect_testing _
  | rbtreeSet => exact effect_timedSetting _
  | rbtreeGet => exact effect_reading _ _
  | rbtreeDel => exact effect_deleting _ _
  | rbtreeMod => exact effect_modifying _
  | rbtreeExists => exact effect_testing _
  | hashSet => exact effect_timedSetting _
  | hashGet => exact effect_reading _ _
  | hashDel => exact effect_deleting _ _
  | hashMod => exact effect_modifying _
  | hashExists => exact effect_testing _
  | keep => exact effect_cmdKeep
  | match_ => exact effect_cmdMatch
  | setctx => exact effect_cmdSetctx
  | getctx => exact effect_reading _ _
  | delctx => exact effect_deleting _ _
  | setrec => exact effect_cmdSetrec
  | getrec => exact effect_reading _ _
  | getidxrec => exact effect_cmdGetidxrec
  | setidx => exact effect_cmdSetidx
  | getidx => exact effect_reading _ _
  | skipSet => exact effect_timedSetting _
  | skipGet => exact effect_reading _ _
  | skipDel => exact effect_deleting _ _
  | skipMod => exact effect_modifying _
  | skipExists => exact effect_testing _
  | zadd => exact effect_cmdZadd
  | zrange => exact effect_cmdZrange
  | zrangerec => exact effect_cmdZrangerec
  | sysSave => exact effect_cmdSysSave
  | sysSync => exact effect_rfl
  | sysSyncDone => exact effect_rfl
  | sysMemtrim => exact effect_cmdSysMemtrim

/-! ## Consistency -/

theorem hashOk_buildRecords {enableTtl : Bool} {now : Nat → Int}
    {ids : List Bytes} {tick : Nat} {hash : KvsHash} (ok : HashOk hash) :
    HashOk (buildRecords enableTtl now ids tick hash).1 := by
  induction ids generalizing tick hash with
  | nil => exact ok
  | cons id ids induction => exact induction (hashOk_get ok _ _ _)

theorem Effect.valid {proc : Proc} {call : Call} {before after : Store}
    (effect : Effect proc call before after) (valid : Valid before.tables) :
    Valid after.tables := by
  induction effect with
  | idle tables =>
      rw [tables]
      exact valid
  | operate table operation tables =>
      rw [tables]
      exact valid.operate _ _ table operation
  | timed type key value time guarded tables =>
      rw [tables]
      exact valid.operate _ _ _ _
  | append key id tables =>
      rw [tables]
      exact valid.setHash (hashOk_append (valid.hashes .hash4) _ _ key id)
  | records ids tick first tables expire induction =>
      rw [tables]
      exact induction.setHash (hashOk_buildRecords (induction.hashes .hash3))
  | zadd timestamp id tables =>
      rw [tables]
      exact ⟨valid.array, valid.rbtree, valid.hashes,
        skipValid_zsetAdd valid.skip timestamp id _⟩

/-- Every command keeps the tables consistent. -/
theorem kvsExecuteBatch_valid {globals : Globals Store}
    (valid : Valid globals.store.tables) (flags : Flags) (mem : Bytes)
    (req : RespRequest) (cmd : Option Command) :
    Valid (kvsExecuteBatch flags globals mem req cmd).1.store.tables := by
  cases cmd with
  | none => exact valid
  | some command => exact (Proc.run_effect command.proc _ _).valid valid

end Kivo.Server.Handlers
