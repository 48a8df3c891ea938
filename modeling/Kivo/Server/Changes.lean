import Kivo.Server.Alignment

/-!
# Commands as changes of the tables

What a command does to the tables is a call that its argument list determines,
up to two times: the one that `parse_ttl` computes and the one that
`cmd_setctx` computes.  Both execution loops, the one that serves a connection
and the one that replays a log, apply this change.  The reading commands need
the TTL switched off for that, since they delete what has expired.
-/

namespace Kivo.Server.Changes

open Kivo.Clib.Memory
open Kivo.Clib.Numeral
open Kivo.Engine.Data
open Kivo.Engine.KeyMap
open Kivo.Engine.ArrayEngine
open Kivo.Engine.HashEngine
open Kivo.Engine.RbtreeEngine
open Kivo.Engine.SkipEngine
open Kivo.Engine.ArrayRuns (arrayStep)
open Kivo.Engine.HashRuns (hashStep kvsHashExist_get)
open Kivo.Engine.RbtreeRuns (rbtreeStep)
open Kivo.Engine.SkipRuns (Level skipStep)
open Kivo.Engine.Store
open Kivo.Resp.Frame
open Kivo.Resp.Canonical
open Kivo.Resp.Reply
open Kivo.Resp.Stream
open Kivo.Server.State
open Kivo.Server.Expire
open Kivo.Server.Commands
open Kivo.Server.CommandTable
open Kivo.Server.Requests
open Kivo.Server.Handlers

/-! ## Changes -/

/-- The calls that a command can make on the tables. -/
inductive Change where
  | keep
  | operate (table : Table) (operation : Operation)
  | append (key id : Bytes)
  | zadd (timestamp : Int) (id : Bytes)

/-- The tables after a change; nothing is expired on the way. -/
def Change.apply (level : Level) (tables : Tables) : Change → Tables
  | .keep => tables
  | .operate table operation => (tables.operate false level table operation).1
  | .append key id =>
      { tables with
        hashes := Function.update tables.hashes .hash4
          (kvsHashAppend false 0 (tables.hashes .hash4) key 0 id).1 }
  | .zadd timestamp id =>
      { tables with skip := (kvsZsetAdd tables.skip timestamp id level).1 }

/-- A call on a table unless the command is misused. -/
def Change.unless (misused : Bool) (change : Change) : Change :=
  if misused then .keep else change

/-- The change of the setting handlers. -/
def settingChange (misused : Bool) (table : Table) (args : List Bytes)
    (expire : Int) : Change :=
  Change.unless misused
    (.operate table (.set (args.getD 1 []) (args.getD 2 []) expire))

/-- The change of the deleting handlers. -/
def deletingChange (misused : Bool) (table : Table) (args : List Bytes) :
    Change :=
  Change.unless misused (.operate table (.del (args.getD 1 [])))

/-- The change of the modifying handlers. -/
def modifyingChange (table : Table) (args : List Bytes) : Change :=
  Change.unless (decide (args.length < 3))
    (.operate table (.mod (args.getD 1 []) (args.getD 2 []) 0))

/-- What a handler does to the tables: `expire` is the time of `parse_ttl` and
`context` the time of `cmd_setctx`. -/
def Proc.change (args : List Bytes) (expire context : Int) : Proc → Change
  | .arraySet => settingChange (decide (args.length < 3)) .array args expire
  | .arrayDel => deletingChange (decide (args.length < 2)) .array args
  | .arrayMod => modifyingChange .array args
  | .rbtreeSet => settingChange (decide (args.length < 3)) .rbtree args expire
  | .rbtreeDel => deletingChange (decide (args.length < 2)) .rbtree args
  | .rbtreeMod => modifyingChange .rbtree args
  | .hashSet =>
      settingChange (decide (args.length < 3)) (.hash .hash) args expire
  | .hashDel => deletingChange (decide (args.length < 2)) (.hash .hash) args
  | .hashMod => modifyingChange (.hash .hash) args
  | .keep => settingChange (decide (args.length < 3)) (.hash .hash1) args 0
  | .setctx =>
      settingChange (decide (args.length < 4)) (.hash .hash2) args context
  | .delctx => deletingChange (decide (args.length ≠ 2)) (.hash .hash2) args
  | .setrec => settingChange (decide (args.length ≠ 3)) (.hash .hash3) args 0
  | .setidx =>
      Change.unless (decide (args.length ≠ 3))
        (.append (args.getD 1 []) (args.getD 2 []))
  | .skipSet => settingChange (decide (args.length < 3)) .skip args expire
  | .skipDel => deletingChange (decide (args.length < 2)) .skip args
  | .skipMod => modifyingChange .skip args
  | .zadd =>
      Change.unless (decide (args.length ≠ 3))
        (Change.unless (decide (strtoll (args.getD 1 []) ≤ 0))
          (.zadd (strtoll (args.getD 1 [])) (args.getD 2 [])))
  | _ => .keep

/-- The change of the setting handlers, as their call shows it. -/
def Call.setting (call : Call) (misused : Bool) (table : Table)
    (expire : Int) : Change :=
  Change.unless misused
    (.operate table (.set (call.arg 1) (call.arg 2) expire))

/-- The change of the deleting handlers, as their call shows it. -/
def Call.deleting (call : Call) (misused : Bool) (table : Table) : Change :=
  Change.unless misused (.operate table (.del (call.arg 1)))

/-- The change of the modifying handlers, as their call shows it. -/
def Call.modifying (call : Call) (table : Table) : Change :=
  Change.unless (decide (call.argc < 3))
    (.operate table (.mod (call.arg 1) (call.arg 2) 0))

/-- What a handler does to the tables, as its call shows it. -/
def Call.change (call : Call) : Proc → Change
  | .arraySet =>
      Call.setting call (decide (call.argc < 3)) .array (expireOf call)
  | .arrayDel => Call.deleting call (decide (call.argc < 2)) .array
  | .arrayMod => Call.modifying call .array
  | .rbtreeSet =>
      Call.setting call (decide (call.argc < 3)) .rbtree (expireOf call)
  | .rbtreeDel => Call.deleting call (decide (call.argc < 2)) .rbtree
  | .rbtreeMod => Call.modifying call .rbtree
  | .hashSet =>
      Call.setting call (decide (call.argc < 3)) (.hash .hash) (expireOf call)
  | .hashDel => Call.deleting call (decide (call.argc < 2)) (.hash .hash)
  | .hashMod => Call.modifying call (.hash .hash)
  | .keep => Call.setting call (decide (call.argc < 3)) (.hash .hash1) 0
  | .setctx =>
      Call.setting call (decide (call.argc < 4)) (.hash .hash2)
        (contextExpire call)
  | .delctx => Call.deleting call (decide (call.argc ≠ 2)) (.hash .hash2)
  | .setrec => Call.setting call (decide (call.argc ≠ 3)) (.hash .hash3) 0
  | .setidx =>
      Change.unless (decide (call.argc ≠ 3))
        (.append (call.arg 1) (call.arg 2))
  | .skipSet =>
      Call.setting call (decide (call.argc < 3)) .skip (expireOf call)
  | .skipDel => Call.deleting call (decide (call.argc < 2)) .skip
  | .skipMod => Call.modifying call .skip
  | .zadd =>
      Change.unless (decide (call.argc ≠ 3))
        (Change.unless (decide (call.number 1 ≤ 0))
          (.zadd (call.number 1) (call.arg 2)))
  | _ => .keep

/-- The handlers of `SET`, `RSET`, `HSET`, `SSET` and `SETCTX`. -/
def timedProcs : List Proc :=
  [.arraySet, .rbtreeSet, .hashSet, .skipSet, .setctx]

/-- Every change keeps the tables consistent. -/
theorem Change.apply_valid (change : Change) {tables : Tables}
    (valid : Valid tables) (level : Level) :
    Valid (change.apply level tables) := by
  cases change with
  | keep => exact valid
  | operate table operation => exact valid.operate false level _ _
  | append key id =>
      exact valid.setHash (hashOk_append (valid.hashes .hash4) _ _ _ _)
  | zadd timestamp id =>
      exact ⟨valid.array, valid.rbtree, valid.hashes,
        skipValid_zsetAdd valid.skip timestamp id level⟩

/-! ## Reading without TTL -/

theorem kvsArrayGet_false (now : Int) (inst : KvsArray) (key : Bytes) :
    (kvsArrayGet false now inst key).1 = inst := by
  rw [kvsArrayGet]
  split <;> simp

theorem kvsRbtreeGet_false (now : Int) (T : KvsRbtree) (key : Bytes) :
    (kvsRbtreeGet false now T key).1 = T := by
  rw [kvsRbtreeGet]
  dsimp only
  split <;> simp

theorem kvsHashGet_false (now : Int) (hash : KvsHash) (key : Bytes)
    (hashCache : UInt64) :
    (kvsHashGet false now hash key hashCache).1 = hash := by
  rw [kvsHashGet]
  split <;> simp

theorem kvsSkipGet_false (now : Int) (skip : KvsSkip) (key : Bytes) :
    (kvsSkipGet false now skip key).1 = skip := by
  rw [kvsSkipGet]
  dsimp only
  split <;> simp

/-- Without TTL the clock is of no concern to an addition. -/
theorem kvsHashAppend_false (now other : Int) (hash : KvsHash)
    (key id : Bytes) (hashCache : UInt64) :
    kvsHashAppend false now hash key hashCache id =
      kvsHashAppend false other hash key hashCache id := by
  have read : kvsHashGet false now hash key hashCache =
      kvsHashGet false other hash key hashCache := by
    rw [kvsHashGet, kvsHashGet]
    split <;> simp
  rw [kvsHashAppend, kvsHashAppend, read]

/-- Without TTL a reading call leaves the tables alone. -/
theorem operate_get_false (level : Level) (tables : Tables) (table : Table)
    (now : Int) (key : Bytes) :
    (tables.operate false level table (.get now key)).1 = tables := by
  cases table with
  | array =>
      simp only [Tables.operate, arrayStep, kvsArrayGet_false]
  | rbtree =>
      simp only [Tables.operate, rbtreeStep, kvsRbtreeGet_false]
  | hash name =>
      simp only [Tables.operate, hashStep, kvsHashGet_false,
        Function.update_eq_self]
  | skip =>
      simp only [Tables.operate, skipStep, kvsSkipGet_false]

/-- So does a call that tests for a key. -/
theorem operate_exist_false (level : Level) (tables : Tables) (table : Table)
    (now : Int) (key : Bytes) :
    (tables.operate false level table (.exist now key)).1 = tables := by
  cases table with
  | array =>
      simp only [Tables.operate, arrayStep, kvsArrayExist, kvsArrayGet_false]
  | rbtree =>
      simp only [Tables.operate, rbtreeStep, kvsRbtreeExist,
        kvsRbtreeGet_false]
  | hash name =>
      simp only [Tables.operate, hashStep, kvsHashExist_get,
        kvsHashGet_false, Function.update_eq_self]
  | skip =>
      simp only [Tables.operate, skipStep, kvsSkipExist, kvsSkipGet_false]

theorem buildRecords_false (now : Nat → Int) (ids : List Bytes) (tick : Nat)
    (hash : KvsHash) :
    (buildRecords false now ids tick hash).1 = hash := by
  induction ids generalizing tick with
  | nil => rfl
  | cons id ids induction =>
      simp only [buildRecords, kvsHashGet_false]
      exact induction (tick + 1)

/-! ## Handlers -/

/-- Calls that do not read do not look at the TTL switch. -/
theorem operate_ttl (enableTtl : Bool) (level : Level) (tables : Tables)
    (table : Table) {operation : Operation}
    (unread : ∀ now key,
      operation ≠ .get now key ∧ operation ≠ .exist now key) :
    tables.operate enableTtl level table operation =
      tables.operate false level table operation := by
  cases operation with
  | set key value expire => cases table <;> rfl
  | mod key value expire => cases table <;> rfl
  | get now key => exact absurd rfl (unread now key).1
  | exist now key => exact absurd rfl (unread now key).2
  | del key => cases table <;> rfl
  | delIfExpired key expected => cases table <;> rfl

section Handlers

variable {call : Call} {args : List Bytes} {store : Store}

theorem reading_tables (off : call.flags.enableTtl = false) (misused : Bool)
    (table : Table) :
    (reading misused table call store).1.tables = store.tables := by
  rw [reading]
  split_ifs
  · rfl
  · dsimp only [Store.operate]
    rw [off, operate_get_false]

theorem testing_tables (off : call.flags.enableTtl = false)
    (table : Table) :
    (testing table call store).1.tables = store.tables := by
  rw [testing]
  split_ifs
  · rfl
  · dsimp only [Store.operate]
    rw [off, operate_exist_false]

theorem cmdMatch_tables (off : call.flags.enableTtl = false) :
    (cmdMatch call store).1.tables = store.tables := by
  rw [cmdMatch]
  split_ifs
  · rfl
  · split
    · rfl
    · rfl
    · dsimp only [Store.operate]
      split_ifs <;> rw [off, operate_get_false]

theorem buildRecordsNewline_tables (off : call.flags.enableTtl = false)
    (ids : List Bytes) (tick : Nat) :
    (buildRecordsNewline call ids tick store).1.tables = store.tables := by
  rw [buildRecordsNewline, off]
  dsimp only [Store.setHash]
  rw [buildRecords_false, Function.update_eq_self]

theorem cmdGetidxrec_tables (off : call.flags.enableTtl = false) :
    (cmdGetidxrec call store).1.tables = store.tables := by
  have read : (store.operate call (.hash .hash4)
      (.get (call.world.now 0) (call.arg 1))).1.tables = store.tables := by
    rw [Store.operate, off]
    exact operate_get_false _ _ _ _ _
  rw [cmdGetidxrec]
  split_ifs
  · rfl
  · dsimp only
    split_ifs
    · exact read
    · exact read
    · rw [buildRecordsNewline_tables off, read]

theorem cmdZrange_tables :
    (cmdZrange call store).1.tables = store.tables := by
  rw [cmdZrange]
  exact @ranging_store (fun after => after.tables = store.tables) _ _ _ rfl
    (fun _ => rfl)

theorem cmdZrangerec_tables (off : call.flags.enableTtl = false) :
    (cmdZrangerec call store).1.tables = store.tables := by
  rw [cmdZrangerec]
  exact @ranging_store (fun after => after.tables = store.tables) _ _ _ rfl
    (fun ids => buildRecordsNewline_tables off ids 0)

theorem cmdSysSave_tables :
    (cmdSysSave call store).1.tables = store.tables := by
  rw [cmdSysSave]
  split_ifs <;> rfl

theorem cmdSysMemtrim_tables :
    (cmdSysMemtrim call store).1.tables = store.tables := by
  rw [cmdSysMemtrim]
  split_ifs <;> rfl

/-- A handler that refuses misused commands. -/
theorem unless_tables {misused : Prop} [Decidable misused] {wrong : Bool}
    (agree : misused ↔ wrong = true) {body : Store × RespReply}
    {change : Change} {level : Level}
    (done : body.1.tables = change.apply level store.tables) :
    (if misused then parseError store else body).1.tables =
      (Change.unless wrong change).apply level store.tables := by
  rw [Change.unless]
  by_cases refused : misused
  · rw [if_pos refused, if_pos (agree.mp refused)]
    rfl
  · rw [if_neg refused, if_neg (mt agree.mpr refused)]
    exact done

/-- Setting a key does not look at the TTL switch. -/
theorem operate_set_tables (table : Table) (key value : Bytes)
    (expire : Int) :
    (store.operate call table (.set key value expire)).1.tables =
      (Change.operate table (.set key value expire)).apply call.world.level
        store.tables := by
  rw [Store.operate, operate_ttl _ _ _ _ (by simp)]
  rfl

theorem timedSetting_tables (type : ExpireType) :
    (timedSetting type call store).1.tables =
      (Call.setting call (decide (call.argc < 3)) type.table
        (expireOf call)).apply call.world.level store.tables := by
  rw [timedSetting, Call.setting]
  refine unless_tables decide_eq_true_iff.symm ?_
  dsimp only
  split_ifs <;> exact operate_set_tables _ _ _ _

theorem cmdArraySet_tables :
    (cmdArraySet call store).1.tables =
      (Call.setting call (decide (call.argc < 3)) .array
        (expireOf call)).apply call.world.level store.tables := by
  rw [cmdArraySet, Call.setting]
  refine unless_tables decide_eq_true_iff.symm ?_
  dsimp only
  split_ifs <;> exact operate_set_tables _ _ _ _

theorem cmdKeep_tables :
    (cmdKeep call store).1.tables =
      (Call.setting call (decide (call.argc < 3)) (.hash .hash1) 0).apply
        call.world.level store.tables := by
  rw [cmdKeep, Call.setting]
  refine unless_tables decide_eq_true_iff.symm ?_
  dsimp only
  split_ifs
  · exact operate_set_tables _ _ _ _
  · split <;> exact operate_set_tables _ _ _ _

theorem cmdSetctx_tables :
    (cmdSetctx call store).1.tables =
      (Call.setting call (decide (call.argc < 4)) (.hash .hash2)
        (contextExpire call)).apply call.world.level store.tables := by
  rw [cmdSetctx, Call.setting]
  refine unless_tables decide_eq_true_iff.symm ?_
  dsimp only
  split_ifs <;> exact operate_set_tables _ _ _ _

theorem cmdSetrec_tables :
    (cmdSetrec call store).1.tables =
      (Call.setting call (decide (call.argc ≠ 3)) (.hash .hash3) 0).apply
        call.world.level store.tables := by
  rw [cmdSetrec, Call.setting]
  exact unless_tables decide_eq_true_iff.symm (operate_set_tables _ _ _ _)

theorem cmdSetidx_tables (off : call.flags.enableTtl = false) :
    (cmdSetidx call store).1.tables =
      (Change.unless (decide (call.argc ≠ 3))
        (.append (call.arg 1) (call.arg 2))).apply
          call.world.level store.tables := by
  rw [cmdSetidx]
  refine unless_tables decide_eq_true_iff.symm ?_
  dsimp only
  rw [off, kvsHashAppend_false _ 0]
  rfl

theorem deleting_tables (misused : Bool) (table : Table) :
    (deleting misused table call store).1.tables =
      (Call.deleting call misused table).apply call.world.level
        store.tables := by
  rw [deleting, Call.deleting]
  refine unless_tables Iff.rfl ?_
  dsimp only [Store.operate]
  rw [operate_ttl _ _ _ _ (by simp)]
  rfl

theorem modifying_tables (table : Table) :
    (modifying table call store).1.tables =
      (Call.modifying call table).apply call.world.level store.tables := by
  rw [modifying, Call.modifying]
  refine unless_tables decide_eq_true_iff.symm ?_
  dsimp only [Store.operate]
  rw [operate_ttl _ _ _ _ (by simp)]
  rfl

theorem cmdZadd_tables :
    (cmdZadd call store).1.tables =
      (Change.unless (decide (call.argc ≠ 3))
        (Change.unless (decide (call.number 1 ≤ 0))
          (.zadd (call.number 1) (call.arg 2)))).apply
            call.world.level store.tables := by
  rw [cmdZadd]
  refine unless_tables decide_eq_true_iff.symm ?_
  exact unless_tables decide_eq_true_iff.symm rfl

end Handlers

/-- A handler changes the tables as its call says, if it does not read or the
TTL is switched off. -/
theorem Proc.run_call {call : Call} {proc : Proc}
    (steady : call.flags.enableTtl = false ∨ proc ∈ timedProcs)
    (globals : Globals Store) :
    (proc.run call globals).1.store.tables =
      (Call.change call proc).apply call.world.level
        globals.store.tables := by
  have off : proc ∉ timedProcs → call.flags.enableTtl = false :=
    fun other => steady.resolve_right other
  cases proc with
  | arraySet => exact cmdArraySet_tables
  | arrayGet => exact reading_tables (off (by decide)) _ _
  | arrayDel => exact deleting_tables _ _
  | arrayMod => exact modifying_tables _
  | arrayExists => exact testing_tables (off (by decide)) _
  | rbtreeSet => exact timedSetting_tables _
  | rbtreeGet => exact reading_tables (off (by decide)) _ _
  | rbtreeDel => exact deleting_tables _ _
  | rbtreeMod => exact modifying_tables _
  | rbtreeExists => exact testing_tables (off (by decide)) _
  | hashSet => exact timedSetting_tables _
  | hashGet => exact reading_tables (off (by decide)) _ _
  | hashDel => exact deleting_tables _ _
  | hashMod => exact modifying_tables _
  | hashExists => exact testing_tables (off (by decide)) _
  | keep => exact cmdKeep_tables
  | match_ => exact cmdMatch_tables (off (by decide))
  | setctx => exact cmdSetctx_tables
  | getctx => exact reading_tables (off (by decide)) _ _
  | delctx => exact deleting_tables _ _
  | setrec => exact cmdSetrec_tables
  | getrec => exact reading_tables (off (by decide)) _ _
  | getidxrec => exact cmdGetidxrec_tables (off (by decide))
  | setidx => exact cmdSetidx_tables (off (by decide))
  | getidx => exact reading_tables (off (by decide)) _ _
  | skipSet => exact timedSetting_tables _
  | skipGet => exact reading_tables (off (by decide)) _ _
  | skipDel => exact deleting_tables _ _
  | skipMod => exact modifying_tables _
  | skipExists => exact testing_tables (off (by decide)) _
  | zadd => exact cmdZadd_tables
  | zrange => exact cmdZrange_tables
  | zrangerec => exact cmdZrangerec_tables (off (by decide))
  | sysSave => exact cmdSysSave_tables
  | sysSync => rfl
  | sysSyncDone => rfl
  | sysMemtrim => exact cmdSysMemtrim_tables

section Arrived

variable {call : Call} {args : List Bytes}
  (arrived : Arrived call.mem call.req args)

include arrived

theorem argc_lt (bound : Nat) :
    call.argc < bound ↔ decide (args.length < bound) = true := by
  rw [Call.argc, arrived.argc, Int.ofNat_lt, decide_eq_true_iff]

theorem argc_ne (number : Nat) :
    call.argc ≠ number ↔ decide (args.length ≠ number) = true := by
  rw [Call.argc, arrived.argc, decide_eq_true_iff, Ne, Int.natCast_inj]

theorem arg_eq (index : Nat) : call.arg index = args.getD index [] :=
  arrived.slice_eq index

theorem decide_argc_lt (bound : Nat) :
    decide (call.argc < bound) = decide (args.length < bound) := by
  rw [Bool.eq_iff_iff, ← argc_lt arrived, decide_eq_true_iff]

theorem decide_argc_ne (number : Nat) :
    decide (call.argc ≠ number) = decide (args.length ≠ number) := by
  rw [Bool.eq_iff_iff, ← argc_ne arrived, decide_eq_true_iff]

theorem setting_eq {misused wrong : Bool} (agree : misused = wrong)
    (table : Table) (expire : Int) :
    Call.setting call misused table expire =
      settingChange wrong table args expire := by
  rw [Call.setting, settingChange, agree, arg_eq arrived, arg_eq arrived]

theorem deleting_eq {misused wrong : Bool} (agree : misused = wrong)
    (table : Table) :
    Call.deleting call misused table = deletingChange wrong table args := by
  rw [Call.deleting, deletingChange, agree, arg_eq arrived]

theorem modifying_eq (table : Table) :
    Call.modifying call table = modifyingChange table args := by
  rw [Call.modifying, modifyingChange, arg_eq arrived, arg_eq arrived]
  exact congrArg (Change.unless · _) (decide_argc_lt arrived 3)

theorem zadd_eq :
    Call.change call .zadd =
      Proc.change args (expireOf call) (contextExpire call) .zadd := by
  simp only [Call.change, Proc.change]
  rw [show decide (call.argc ≠ 3) = _ from decide_argc_ne arrived 3]
  by_cases three : args.length = 3
  · have number : call.number 1 = strtoll (args.getD 1 []) :=
      arrived.number_inner (by omega)
    rw [number, arg_eq arrived]
  · rw [Change.unless, if_pos (decide_eq_true three), Change.unless,
      if_pos (decide_eq_true three)]

/-- The change that a call shows is the one of its argument list. -/
theorem change_eq (proc : Proc) :
    Call.change call proc =
      Proc.change args (expireOf call) (contextExpire call) proc := by
  have two := decide_argc_lt arrived 2
  have three := decide_argc_lt arrived 3
  have four := decide_argc_lt arrived 4
  have exactlyTwo := decide_argc_ne arrived 2
  have exactlyThree := decide_argc_ne arrived 3
  cases proc with
  | arraySet => exact setting_eq arrived three _ _
  | arrayDel => exact deleting_eq arrived two _
  | arrayMod => exact modifying_eq arrived _
  | rbtreeSet => exact setting_eq arrived three _ _
  | rbtreeDel => exact deleting_eq arrived two _
  | rbtreeMod => exact modifying_eq arrived _
  | hashSet => exact setting_eq arrived three _ _
  | hashDel => exact deleting_eq arrived two _
  | hashMod => exact modifying_eq arrived _
  | keep => exact setting_eq arrived three _ _
  | setctx => exact setting_eq arrived four _ _
  | delctx => exact deleting_eq arrived exactlyTwo _
  | setrec => exact setting_eq arrived exactlyThree _ _
  | setidx =>
      simp only [Call.change, Proc.change, arg_eq arrived]
      exact congrArg (Change.unless · _) exactlyThree
  | skipSet => exact setting_eq arrived three _ _
  | skipDel => exact deleting_eq arrived two _
  | skipMod => exact modifying_eq arrived _
  | zadd => exact zadd_eq arrived
  | _ => rfl

/-- A handler changes the tables as its argument list says, if it does not
read or the TTL is switched off. -/
theorem Proc.run_change {proc : Proc}
    (steady : call.flags.enableTtl = false ∨ proc ∈ timedProcs)
    (globals : Globals Store) :
    (proc.run call globals).1.store.tables =
      (Proc.change args (expireOf call) (contextExpire call) proc).apply
        call.world.level globals.store.tables := by
  rw [Proc.run_call steady, change_eq arrived]

end Arrived

/-! ## Commands -/

/-- What a command does to the tables. -/
def commandChange (args : List Bytes) (expire context : Int) : Change :=
  match commandNamed (args.getD 0 []) with
  | some command => Proc.change args expire context command.proc
  | none => .keep

theorem sameName_iff {left right : Bytes} :
    sameName left right = true ↔ left.map toUpper = right.map toUpper :=
  beq_iff_eq

/-- Names that are the same are the same as the same names. -/
theorem sameName_congr {left right : Bytes}
    (same : sameName left right = true) (keyword : Bytes) :
    sameName left keyword = sameName right keyword := by
  rw [sameName, sameName, sameName_iff.mp same]

/-- A name that the table does not have is not found. -/
theorem commandNamed_foreign {name keyword : Bytes}
    (same : sameName name keyword = true)
    (foreign : ∀ command ∈ gCmdTable,
      sameName keyword command.name = false) :
    commandNamed name = none := by
  rw [Option.eq_none_iff_forall_ne_some]
  intro command found
  obtain ⟨member, fits⟩ := commandNamed_some found
  rw [sameName_congr same, foreign command member] at fits
  cases fits

/-- The handlers that leave the tables alone. -/
def readingProcs : List Proc :=
  [.arrayGet, .arrayExists, .rbtreeGet, .rbtreeExists, .hashGet, .hashExists,
    .match_, .getctx, .getrec, .getidxrec, .getidx, .skipGet, .skipExists,
    .zrange, .zrangerec, .sysSave, .sysSync, .sysSyncDone, .sysMemtrim]

/-- Every command of the table that is not a write command reads. -/
theorem gCmdTable_unlogged : ∀ command ∈ gCmdTable,
    isWriteName command.name = false → command.proc ∈ readingProcs := by
  decide

theorem change_reading {proc : Proc} (reads : proc ∈ readingProcs)
    (args : List Bytes) (expire context : Int) :
    Proc.change args expire context proc = .keep := by
  cases proc <;> first | rfl | exact absurd reads (by decide)

/-- A command that is not logged changes nothing. -/
theorem commandChange_unlogged {args : List Bytes}
    (unlogged : isWriteName (args.getD 0 []) = false)
    (expire context : Int) :
    commandChange args expire context = .keep := by
  rw [commandChange]
  split
  · rename_i command found
    obtain ⟨member, fits⟩ := commandNamed_some found
    refine change_reading (gCmdTable_unlogged command member ?_) _ _ _
    rw [isWriteName, ← funext (sameName_congr fits)]
    exact unlogged
  · rfl

/-! ## The two loops -/

/-- What the handler of a canonical frame reads. -/
def callOf (flags : Flags) (mem : Bytes) (address : Int) (args : List Bytes)
    (globals : Globals Store) : Call :=
  nextCall flags globals mem
    (respUnpackNoModify mem address (respEncode args).length)

/-- Reading commands come with the TTL switched off. -/
def Steady (flags : Flags) (args : List Bytes) : Prop :=
  flags.enableTtl = false ∨
    ∀ command, commandNamed (args.getD 0 []) = some command →
      command.proc ∈ timedProcs

/-- The tables after a call. -/
def Call.after (call : Call) (args : List Bytes) (tables : Tables) : Tables :=
  (commandChange args (expireOf call) (contextExpire call)).apply
    call.world.level tables

section Loops

variable {flags : Flags} {mem : Bytes} {address : Int} {args : List Bytes}
  (stored : Holds mem address (respEncode args))
  (small : (respEncode args).length < 2 ^ 31)
  (steady : Steady flags args)

include stored small steady

theorem kvsExecuteBatch_tables (globals : Globals Store) :
    (kvsExecuteBatch flags globals mem
        (respUnpackNoModify mem address (respEncode args).length)
        (commandNamed (args.getD 0 []))).1.store.tables =
      Call.after (callOf flags mem address args globals) args
        globals.store.tables := by
  have arrived := arrived_encode stored small
  rw [Call.after, commandChange]
  cases found : commandNamed (args.getD 0 []) with
  | none => rfl
  | some command =>
      refine @Proc.run_change (callOf flags mem address args globals) args
        arrived command.proc ?_ (tick globals)
      exact steady.imp id (fun timed => timed command found)

/-- The loop that replays a log applies the change of a frame. -/
theorem replayCommand_tables (session : Session Store) :
    (replayCommand (commandLayer flags) mem address
        (respEncode args).length session).globals.store.tables =
      Call.after (callOf flags mem address args session.globals) args
        session.globals.store.tables := by
  have command := (arrived_encode stored small).command_eq
  rw [replayCommand, commandLayer]
  dsimp only
  rw [command]
  exact kvsExecuteBatch_tables stored small steady session.globals

end Loops

theorem Proc.run_persisted (proc : Proc) (call : Call)
    (globals : Globals Store) :
    (proc.run call globals).1.persisted = globals.persisted := by
  cases proc <;> rfl

theorem kvsExecuteBatch_persisted (flags : Flags) (globals : Globals Store)
    (mem : Bytes) (req : RespRequest) (cmd : Option Command) :
    (kvsExecuteBatch flags globals mem req cmd).1.persisted =
      globals.persisted := by
  cases cmd with
  | none => rfl
  | some command => exact Proc.run_persisted _ _ _

/-- The frames that a command adds to the log. -/
def loggedPart (args : List Bytes) : List (List Bytes) :=
  if isWriteName (args.getD 0 []) then [args] else []

section Serving

variable {flags : Flags} {mem : Bytes} {address : Int} {args : List Bytes}
  (stored : Holds mem address (respEncode args))
  (small : (respEncode args).length < 2 ^ 31)

include stored small

/-- `PING` and the frames of the RDMA connection touch neither the tables nor
the log. -/
theorem serveCommand_special (fd : Int) (session : Session Store)
    (special : sameName (args.getD 0 []) (ascii "PING") = true ∨
      (flags.enableReplMaster &&
        sameName (args.getD 0 []) (ascii "RDMA_CONNECT")) = true) :
    (serveCommand (commandLayer flags) flags fd mem address
        (respEncode args).length session).globals.store =
        session.globals.store ∧
      (serveCommand (commandLayer flags) flags fd mem address
        (respEncode args).length session).globals.persisted =
        session.globals.persisted := by
  have arrived := arrived_encode stored small
  have ping := arrived.requestIs_eq (show ascii "PING" ≠ [] by decide)
  have rdma := arrived.requestIs_eq
    (show ascii "RDMA_CONNECT" ≠ [] by decide)
  rw [serveCommand]
  dsimp only
  rw [ping, rdma]
  by_cases first : sameName (args.getD 0 []) (ascii "PING") = true
  · rw [if_pos first]
    exact ⟨rfl, rfl⟩
  · rw [if_neg first, if_pos (special.resolve_left first)]
    exact ⟨rfl, rfl⟩

omit stored small in
/-- The special commands are neither in the table nor logged. -/
theorem special_foreign
    (special : sameName (args.getD 0 []) (ascii "PING") = true ∨
      (flags.enableReplMaster &&
        sameName (args.getD 0 []) (ascii "RDMA_CONNECT")) = true) :
    commandNamed (args.getD 0 []) = none ∧
      isWriteName (args.getD 0 []) = false := by
  have same : sameName (args.getD 0 []) (ascii "PING") = true ∨
      sameName (args.getD 0 []) (ascii "RDMA_CONNECT") = true :=
    special.imp id (fun both => (Bool.and_eq_true_iff.mp both).2)
  rcases same with ping | rdma
  · refine ⟨commandNamed_foreign ping (by decide), ?_⟩
    rw [isWriteName, funext (sameName_congr ping)]
    decide
  · refine ⟨commandNamed_foreign rdma (by decide), ?_⟩
    rw [isWriteName, funext (sameName_congr rdma)]
    decide

/-- The loop that serves a connection applies the change of a frame. -/
theorem serveCommand_tables (fd : Int) (steady : Steady flags args)
    (session : Session Store) :
    (serveCommand (commandLayer flags) flags fd mem address
        (respEncode args).length session).globals.store.tables =
      Call.after (callOf flags mem address args session.globals) args
        session.globals.store.tables := by
  by_cases special : sameName (args.getD 0 []) (ascii "PING") = true ∨
      (flags.enableReplMaster &&
        sameName (args.getD 0 []) (ascii "RDMA_CONNECT")) = true
  · rw [(serveCommand_special stored small fd session special).1,
      Call.after, commandChange, (special_foreign special).1]
    rfl
  · obtain ⟨ping, rdma⟩ := not_or.mp special
    rw [Bool.not_eq_true] at ping rdma
    rw [serveCommand_encode flags fd stored small ping rdma]
    dsimp only
    rw [kvsExecuteBatch_tables stored small steady, prepared_store, callOf,
      nextCall, prepared_store]
    rfl

/-- The loop that serves a connection logs the frame of a write command and
applies its change. -/
theorem serveCommand_change (fd : Int) (logging : flags.logsWrites = true)
    (steady : Steady flags args) (session : Session Store) :
    (serveCommand (commandLayer flags) flags fd mem address
        (respEncode args).length session).globals.store.tables =
        Call.after (callOf flags mem address args session.globals) args
          session.globals.store.tables ∧
      (serveCommand (commandLayer flags) flags fd mem address
        (respEncode args).length session).globals.persisted =
        session.globals.persisted ++ (loggedPart args).map respEncode := by
  refine ⟨serveCommand_tables stored small fd steady session, ?_⟩
  by_cases special : sameName (args.getD 0 []) (ascii "PING") = true ∨
      (flags.enableReplMaster &&
        sameName (args.getD 0 []) (ascii "RDMA_CONNECT")) = true
  · rw [(serveCommand_special stored small fd session special).2,
      loggedPart, if_neg (by rw [(special_foreign special).2]; decide)]
    exact (List.append_nil _).symm
  · obtain ⟨ping, rdma⟩ := not_or.mp special
    rw [Bool.not_eq_true] at ping rdma
    rw [serveCommand_encode flags fd stored small ping rdma]
    dsimp only
    rw [kvsExecuteBatch_persisted, prepared, loggedPart]
    split_ifs with write
    · exact Globals.logFrame_persisted _ _ logging
    · exact (List.append_nil _).symm

end Serving

end Kivo.Server.Changes
