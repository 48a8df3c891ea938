import Kivo.Engine.Maps
import Kivo.Server.StaleHash

/-!
# How long a context lives

`SETCTX` counts the seconds from `time`, which cuts off the milliseconds of the
present second.  Reading compares the deadline with the clock in milliseconds,
and so does the thread that hands timers back.  A context is therefore missing
from the deadline that was cut off, up to a second before its time is over.
-/

namespace Kivo.Server.ContextTime

open Kivo.Clib.Memory
open Kivo.Clib.Simulation
open Kivo.Engine
open Kivo.Engine.Data
open Kivo.Engine.KeyMap
open Kivo.Engine.HashEngine
open Kivo.Engine.Maps
open Kivo.Engine.SkipRuns (Level)
open Kivo.Engine.Store
open Kivo.Resp.Frame
open Kivo.Resp.Reply
open Kivo.Resp.Stream
open Kivo.Server
open Kivo.Server.State
open Kivo.Server.Expire
open Kivo.Server.Timers
open Kivo.Server.Commands
open Kivo.Server.CommandTable
open Kivo.Server.Handlers
open Kivo.Server.ActiveExpiry

/-! ## Handlers of other tables -/

/-- The contexts, which `global_hash2` holds. -/
def contexts (tables : Tables) : Contents :=
  Tables.map tables (.hash .hash2)

section Sparing

variable {call : Call} {store : Store} {table : Table}

theorem operate_contexts (apart : table ≠ .hash .hash2)
    (operation : Operation) :
    contexts (store.operate call table operation).1.tables =
      contexts store.tables :=
  operate_other _ _ _ (Ne.symm apart) operation

theorem reading_contexts (apart : table ≠ .hash .hash2) (misused : Bool) :
    contexts (reading misused table call store).1.tables =
      contexts store.tables := by
  rw [reading]
  split_ifs
  · rfl
  · exact operate_contexts apart _

theorem deleting_contexts (apart : table ≠ .hash .hash2) (misused : Bool) :
    contexts (deleting misused table call store).1.tables =
      contexts store.tables := by
  rw [deleting]
  split_ifs
  · rfl
  · exact operate_contexts apart _

theorem modifying_contexts (apart : table ≠ .hash .hash2) :
    contexts (modifying table call store).1.tables =
      contexts store.tables := by
  rw [modifying]
  split_ifs
  · rfl
  · exact operate_contexts apart _

theorem testing_contexts (apart : table ≠ .hash .hash2) :
    contexts (testing table call store).1.tables =
      contexts store.tables := by
  rw [testing]
  split_ifs
  · rfl
  · exact operate_contexts apart _

theorem timedSetting_contexts {type : ExpireType}
    (apart : type.table ≠ .hash .hash2) :
    contexts (timedSetting type call store).1.tables =
      contexts store.tables := by
  rw [timedSetting]
  split_ifs
  · rfl
  · dsimp only
    split_ifs <;> exact operate_contexts apart _

theorem cmdArraySet_contexts :
    contexts (cmdArraySet call store).1.tables = contexts store.tables := by
  rw [cmdArraySet]
  split_ifs
  · rfl
  · dsimp only
    split_ifs <;> exact operate_contexts (by decide) _

theorem cmdKeep_contexts :
    contexts (cmdKeep call store).1.tables = contexts store.tables := by
  rw [cmdKeep]
  split_ifs
  · rfl
  · dsimp only
    split_ifs
    · exact operate_contexts (by decide) _
    · split <;> exact operate_contexts (by decide) _

theorem cmdMatch_contexts :
    contexts (cmdMatch call store).1.tables = contexts store.tables := by
  rw [cmdMatch]
  split_ifs
  · rfl
  · split
    · rfl
    · rfl
    · dsimp only
      split_ifs <;> exact operate_contexts (by decide) _

theorem setHash_contexts {name : HashName} (apart : name ≠ .hash2)
    (hash : KvsHash) :
    contexts (store.setHash name hash).tables = contexts store.tables := by
  have same : (store.setHash name hash).tables.hashes .hash2 =
      store.tables.hashes .hash2 :=
    Function.update_of_ne (Ne.symm apart) _ _
  exact congrArg (fun table => contents (HashTable.entries table)) same

theorem cmdSetrec_contexts :
    contexts (cmdSetrec call store).1.tables = contexts store.tables := by
  rw [cmdSetrec]
  split_ifs
  · rfl
  · exact operate_contexts (by decide) _

theorem cmdSetidx_contexts :
    contexts (cmdSetidx call store).1.tables = contexts store.tables := by
  rw [cmdSetidx]
  split_ifs
  · rfl
  · exact setHash_contexts (by decide) _

theorem buildRecordsNewline_contexts (ids : List Bytes) (tick : Nat) :
    contexts (buildRecordsNewline call ids tick store).1.tables =
      contexts store.tables := by
  rw [buildRecordsNewline]
  dsimp only
  exact setHash_contexts (by decide) _

theorem cmdGetidxrec_contexts :
    contexts (cmdGetidxrec call store).1.tables = contexts store.tables := by
  rw [cmdGetidxrec]
  split_ifs
  · rfl
  · dsimp only
    split_ifs
    · exact operate_contexts (by decide) _
    · exact operate_contexts (by decide) _
    · exact (buildRecordsNewline_contexts _ _).trans
        (operate_contexts (by decide) _)

theorem cmdZadd_contexts :
    contexts (cmdZadd call store).1.tables = contexts store.tables := by
  rw [cmdZadd]
  split_ifs
  · rfl
  · dsimp only
    split_ifs <;> rfl

theorem cmdZrange_contexts :
    contexts (cmdZrange call store).1.tables = contexts store.tables := by
  rw [cmdZrange]
  exact @ranging_store
    (fun after => contexts after.tables = contexts store.tables) _ _ _ rfl
    (fun _ => rfl)

theorem cmdZrangerec_contexts :
    contexts (cmdZrangerec call store).1.tables = contexts store.tables := by
  rw [cmdZrangerec]
  exact @ranging_store
    (fun after => contexts after.tables = contexts store.tables) _ _ _ rfl
    (fun ids => buildRecordsNewline_contexts ids 0)

theorem cmdSysSave_contexts :
    contexts (cmdSysSave call store).1.tables = contexts store.tables := by
  rw [cmdSysSave]
  split_ifs <;> rfl

theorem cmdSysMemtrim_contexts :
    contexts (cmdSysMemtrim call store).1.tables = contexts store.tables := by
  rw [cmdSysMemtrim]
  split_ifs <;> rfl

end Sparing

/-- The handlers that work on the contexts. -/
def contextProcs : List Proc := [.setctx, .getctx, .delctx]

/-- Every other handler leaves the contexts alone. -/
theorem Proc.run_contexts {proc : Proc} (other : proc ∉ contextProcs)
    (call : Call) (globals : Globals Store) :
    contexts (proc.run call globals).1.store.tables =
      contexts globals.store.tables := by
  cases proc with
  | arraySet => exact cmdArraySet_contexts
  | arrayGet => exact reading_contexts (by decide) _
  | arrayDel => exact deleting_contexts (by decide) _
  | arrayMod => exact modifying_contexts (by decide)
  | arrayExists => exact testing_contexts (by decide)
  | rbtreeSet => exact timedSetting_contexts (by decide)
  | rbtreeGet => exact reading_contexts (by decide) _
  | rbtreeDel => exact deleting_contexts (by decide) _
  | rbtreeMod => exact modifying_contexts (by decide)
  | rbtreeExists => exact testing_contexts (by decide)
  | hashSet => exact timedSetting_contexts (by decide)
  | hashGet => exact reading_contexts (by decide) _
  | hashDel => exact deleting_contexts (by decide) _
  | hashMod => exact modifying_contexts (by decide)
  | hashExists => exact testing_contexts (by decide)
  | keep => exact cmdKeep_contexts
  | match_ => exact cmdMatch_contexts
  | setctx => exact absurd (by decide) other
  | getctx => exact absurd (by decide) other
  | delctx => exact absurd (by decide) other
  | setrec => exact cmdSetrec_contexts
  | getrec => exact reading_contexts (by decide) _
  | getidxrec => exact cmdGetidxrec_contexts
  | setidx => exact cmdSetidx_contexts
  | getidx => exact reading_contexts (by decide) _
  | skipSet => exact timedSetting_contexts (by decide)
  | skipGet => exact reading_contexts (by decide) _
  | skipDel => exact deleting_contexts (by decide) _
  | skipMod => exact modifying_contexts (by decide)
  | skipExists => exact testing_contexts (by decide)
  | zadd => exact cmdZadd_contexts
  | zrange => exact cmdZrange_contexts
  | zrangerec => exact cmdZrangerec_contexts
  | sysSave => exact cmdSysSave_contexts
  | sysSync => rfl
  | sysSyncDone => rfl
  | sysMemtrim => exact cmdSysMemtrim_contexts

/-! ## What can happen to a context -/

/-- A context stays as it is, or it goes when its time has come. -/
def Lasts (latest : Int) (before after : Option Item) : Prop :=
  after = before ∨
    after = none ∧
      ∃ stored, before = some stored ∧ stored.expireTime ≤ latest

theorem Lasts.refl (latest : Int) (before : Option Item) :
    Lasts latest before before :=
  Or.inl rfl

theorem Lasts.trans {latest : Int} {before between after : Option Item}
    (first : Lasts latest before between)
    (second : Lasts latest between after) : Lasts latest before after := by
  rcases first with rfl | ⟨rfl, stored, here, late⟩
  · exact second
  · rcases second with rfl | ⟨-, other, there, -⟩
    · exact Or.inr ⟨rfl, stored, here, late⟩
    · cases there

section Step

variable {tables : Tables} (valid : Valid tables) {id : Bytes}
  {latest : Int}

include valid

/-- Reading a context. -/
theorem get_lasts (enableTtl : Bool) (level : Level) {now : Int}
    (key : Bytes) (early : now ≤ latest) :
    Lasts latest (contexts tables id)
      (contexts (tables.operate enableTtl level (.hash .hash2)
        (.get now key)).1 id) := by
  by_cases own : id = key
  · subst own
    have step := @operate_map _ valid enableTtl level (.hash .hash2)
      (.get now id) (fun sets => absurd sets not_false)
    have after : contexts (tables.operate enableTtl level (.hash .hash2)
        (.get now id)).1 id = (contexts tables id).filter (fun stored =>
          ¬ Expired enableTtl now stored.expireTime) :=
      (congrFun (congrArg Prod.fst step) id).trans
        (purge_self enableTtl now (contexts tables) id)
    rw [after]
    cases stored : contexts tables id with
    | none => exact Or.inl rfl
    | some item =>
        rw [Option.filter_some]
        by_cases expired : Expired enableTtl now item.expireTime
        · rw [decide_eq_false (not_not.mpr expired)]
          exact Or.inr ⟨rfl, item, rfl, (expired.2.2.trans_le early).le⟩
        · rw [decide_eq_true expired]
          exact Or.inl rfl
  · left
    exact operate_frame valid enableTtl level (.hash .hash2) (.hash .hash2)
      (.get now key) (fun _ => own)

/-- A timer that comes back. -/
theorem engineDelIfExpired_lasts {item : ExpireItem}
    (early : item.expireTime ≤ latest) :
    Lasts latest (contexts tables id)
      (contexts (engineDelIfExpired tables item).1 id) := by
  rw [engineDelIfExpired]
  cases item.type.table with
  | array => exact Or.inl rfl
  | rbtree => exact Or.inl rfl
  | skip => exact Or.inl rfl
  | hash name =>
      dsimp only
      rcases kvsHashDelIfExpired_cached (valid.hashes name) item.key
        item.hashCache item.expireTime with same | same
      · rw [same, Function.update_eq_self]
        exact Or.inl rfl
      · rw [same]
        have step := @operate_map _ valid false 0 (.hash name)
          (.delIfExpired item.key item.expireTime)
          (fun sets => absurd sets not_false)
        by_cases here : name = .hash2
        · subst here
          have after := congrFun (congrArg Prod.fst step) id
          refine (congrArg (Lasts latest (contexts tables id)) after).mpr ?_
          rw [Contents.step]
          split_ifs with due
          · by_cases own : id = item.key
            · subst own
              obtain ⟨stored, found, time⟩ := Option.map_eq_some_iff.mp due
              exact Or.inr ⟨erase_self _ _, stored, found, time.trans_le early⟩
            · exact Or.inl (if_neg own)
          · exact Or.inl rfl
        · left
          exact congrFun (operate_other false 0 tables
            (fun same => here (Table.hash.inj same).symm)
            (.delIfExpired item.key item.expireTime)) id

end Step

/-- The id is not written or deleted. -/
def Spares (id : Bytes) (proc : Proc) (call : Call) : Prop :=
  proc = .setctx ∨ proc = .delctx → call.arg 1 ≠ id

/-- A command that spares the id. -/
theorem Proc.run_lasts {proc : Proc} {call : Call} {globals : Globals Store}
    (valid : Valid globals.store.tables) {id : Bytes} {latest : Int}
    (spares : Spares id proc call) (early : call.world.now 0 ≤ latest) :
    Lasts latest (contexts globals.store.tables id)
      (contexts (proc.run call globals).1.store.tables id) := by
  by_cases other : proc ∉ contextProcs
  · rw [Proc.run_contexts other]
    exact .refl _ _
  · have known : proc ∈ contextProcs := not_not.mp other
    simp only [contextProcs, List.mem_cons, List.not_mem_nil, or_false] at known
    rcases known with rfl | rfl | rfl
    · have apart : id ≠ call.arg 1 := (spares (Or.inl rfl)).symm
      have frame := operate_frame valid call.flags.enableTtl call.world.level
        (.hash .hash2) (.hash .hash2)
        (.set (call.arg 1) (call.arg 2) (contextExpire call))
        (fun _ => apart)
      rw [show (Proc.run .setctx call globals).1.store =
        (cmdSetctx call globals.store).1 from rfl, cmdSetctx]
      split_ifs
      · exact .refl _ _
      · dsimp only
        split_ifs <;> exact Or.inl frame
    · rw [show (Proc.run .getctx call globals).1.store =
        (cmdGetctx call globals.store).1 from rfl, cmdGetctx, reading]
      split_ifs
      · exact .refl _ _
      · exact get_lasts valid call.flags.enableTtl call.world.level
          (call.arg 1) early
    · have apart : id ≠ call.arg 1 := (spares (Or.inr rfl)).symm
      rw [show (Proc.run .delctx call globals).1.store =
        (cmdDelctx call globals.store).1 from rfl, cmdDelctx, deleting]
      split_ifs
      · exact .refl _ _
      · exact Or.inl (operate_frame valid call.flags.enableTtl
          call.world.level (.hash .hash2) (.hash .hash2)
          (.del (call.arg 1)) (fun _ => apart))

/-! ## Runs -/

/-- What the thread has in hand for the delete queue has come due. -/
def PhaseDue (clock : Int) : ThreadPhase → Prop
  | .fire now => now ≤ clock
  | .deliver now item => now ≤ clock ∧ item.expireTime ≤ clock
  | _ => True

/-- Every timer on its way back has come due. -/
structure Returning (clock : Int) (expire : ExpireSystem) : Prop where
  ok : QueueOk expire.deleteQueue
  phase : PhaseDue clock expire.phase
  delete : ∀ item ∈ ExpireQueue.contents expire.deleteQueue,
    item.expireTime ≤ clock

section Returns

variable {clock now : Int} {expire : ExpireSystem}

theorem returning_init (clock : Int) : Returning clock expireSystemInit :=
  ⟨queueOk_zero, trivial, fun _ member => absurd member List.not_mem_nil⟩

/-- Time passes. -/
theorem Returning.mono (returning : Returning clock expire)
    (passed : clock ≤ now) : Returning now expire := by
  refine ⟨returning.ok, ?_,
    fun item member => (returning.delete item member).trans passed⟩
  have phase := returning.phase
  cases stands : expire.phase with
  | collect => trivial
  | insert item => trivial
  | fire reading =>
      rw [stands] at phase
      exact le_trans phase passed
  | deliver reading item =>
      rw [stands] at phase
      exact ⟨phase.1.trans passed, phase.2.trans passed⟩

/-- `expire_push_cmd` does not reach the delete queue. -/
theorem Returning.pushCmd (returning : Returning clock expire)
    (stack : UInt64) (type : ExpireType) (key : Bytes) (time : Int) :
    Returning clock (expirePushCmd stack type key time expire) := by
  rcases expirePushCmd_cases stack type key time expire with
    same | ⟨item, queue, -, -, -, -, handed⟩
  · rw [same]
    exact returning
  · rw [handed]
    exact ⟨returning.ok, returning.phase, returning.delete⟩

theorem Returning.threadStep (returning : Returning clock expire)
    (passed : clock ≤ now) :
    Returning now (expireThreadStep now expire) := by
  obtain ⟨ok, phase, delete⟩ := returning.mono passed
  have move := expireThreadStep_move now expire
  generalize expireThreadStep now expire = next at move ⊢
  cases move with
  | take stands popped => exact ⟨ok, trivial, delete⟩
  | look stands empty => exact ⟨ok, le_refl now, delete⟩
  | insert stands => exact ⟨ok, trivial, delete⟩
  | ripen stands ripe popped =>
      rw [stands] at phase
      exact ⟨ok, ⟨phase, ripe.trans phase⟩, delete⟩
  | again stands idle => exact ⟨ok, trivial, delete⟩
  | deliver stands pushed =>
      rw [stands] at phase
      exact ⟨(queuePush_contents ok pushed).1, phase.1,
        queuePush_forall ok pushed delete phase.2⟩
  | wait stands full => exact ⟨ok, phase, delete⟩

end Returns

/-- The tables are consistent, and no timer is back before its time. -/
structure Steady (machine : Machine) : Prop where
  valid : Valid machine.globals.store.tables
  returning : Returning machine.clock machine.globals.store.expire

/-- The event happens by some time, after what the thread has read from the
clock, and does not write or delete the id. -/
def Within (flags : Flags) (id : Bytes) (latest : Int) (machine : Machine) :
    Event → Prop
  | .command mem req command =>
      let call := nextCall flags machine.globals mem req
      call.world.now 0 ≤ latest ∧ Spares id command.proc call
  | .thread now => machine.clock ≤ now ∧ now ≤ latest
  | .process now _ => machine.clock ≤ now ∧ now ≤ latest

theorem Effect.returning {proc : Proc} {call : Call} {before after : Store}
    (effect : Effect proc call before after) {clock : Int}
    (returning : Returning clock before.expire) :
    Returning clock after.expire := by
  rcases effect.expire_cases with same | ⟨type, key, time, handed, -⟩
  · rw [same]
    exact returning
  · rw [handed]
    exact returning.pushCmd _ _ _ _

section Deletes

variable {flags : Flags} {globals : Globals Store} {clock latest : Int}
  (valid : Valid globals.store.tables)
  (returning : Returning clock globals.store.expire)
  (early : clock ≤ latest) (id : Bytes)

include valid returning early

/-- One iteration of `expire_process_deletes`. -/
theorem expireProcessOne_lasts {next : Globals Store}
    (processed : expireProcessOne flags globals = some next) :
    Valid next.store.tables ∧ Returning clock next.store.expire ∧
      Lasts latest (contexts globals.store.tables id)
        (contexts next.store.tables id) := by
  obtain ⟨item, queue, popped, store⟩ := expireProcessOne_store processed
  obtain ⟨due, rest⟩ :=
    queuePop_forall returning.ok popped returning.delete
  rw [store]
  exact ⟨(engineDelIfExpired_removes valid item).1,
    ⟨(queuePop_contents returning.ok popped).1, returning.phase, rest⟩,
    engineDelIfExpired_lasts valid (due.trans early)⟩

/-- The loop of `expire_process_deletes`. -/
theorem expireProcessLoop_lasts (left : Nat) :
    Valid (expireProcessLoop flags left globals).store.tables ∧
      Returning clock (expireProcessLoop flags left globals).store.expire ∧
      Lasts latest (contexts globals.store.tables id)
        (contexts (expireProcessLoop flags left globals).store.tables id) := by
  refine @expireProcessLoop_keeps flags
    (fun next => Valid next.store.tables ∧
      Returning clock next.store.expire ∧
        Lasts latest (contexts globals.store.tables id)
          (contexts next.store.tables id))
    ?_ left _ ⟨valid, returning, .refl _ _⟩
  rintro between next ⟨valid, returning, first⟩ processed
  obtain ⟨removed, rest, second⟩ :=
    expireProcessOne_lasts valid returning early id processed
  exact ⟨removed, rest, first.trans second⟩

end Deletes

theorem machineStep_steady {flags : Flags} {machine : Machine} {event : Event}
    (steady : Steady machine) (forward : Forward machine event) :
    Steady (machineStep flags machine event).1 := by
  cases event with
  | command mem req command =>
      exact ⟨kvsExecuteBatch_valid steady.valid _ _ _ _,
        Effect.returning (Proc.run_effect command.proc
          (nextCall flags machine.globals mem req) (tick machine.globals))
          steady.returning⟩
  | thread now =>
      exact ⟨steady.valid, steady.returning.threadStep forward⟩
  | process now left =>
      obtain ⟨valid, returning, -⟩ :=
        @expireProcessLoop_lasts flags _ _ _ steady.valid
          (steady.returning.mono forward) (le_refl now) [] left
      exact ⟨valid, returning⟩

/-- One event. -/
theorem machineStep_lasts {flags : Flags} {machine : Machine} {event : Event}
    (steady : Steady machine) {id : Bytes} {latest : Int}
    (within : Within flags id latest machine event) :
    Steady (machineStep flags machine event).1 ∧
      Lasts latest (contexts machine.globals.store.tables id)
        (contexts (machineStep flags machine
          event).1.globals.store.tables id) := by
  cases event with
  | command mem req command =>
      exact ⟨machineStep_steady steady trivial,
        @Proc.run_lasts command.proc (nextCall flags machine.globals mem req)
          (tick machine.globals) steady.valid id latest within.2 within.1⟩
  | thread now => exact ⟨machineStep_steady steady within.1, .refl _ _⟩
  | process now left =>
      exact ⟨machineStep_steady steady within.1,
        (expireProcessLoop_lasts steady.valid
          (steady.returning.mono within.1) within.2 id left).2.2⟩

/-- A run. -/
theorem run_lasts {flags : Flags} {machine : Machine} {events : List Event}
    (steady : Steady machine) {id : Bytes} {latest : Int}
    (within : Along (machineStep flags) (Within flags id latest) machine
      events) :
    Steady (run (machineStep flags) machine events).1 ∧
      Lasts latest (contexts machine.globals.store.tables id)
        (contexts (run (machineStep flags) machine
          events).1.globals.store.tables id) := by
  induction events generalizing machine with
  | nil => exact ⟨steady, .refl _ _⟩
  | cons event rest induction =>
      obtain ⟨next, first⟩ := machineStep_lasts steady within.1
      obtain ⟨last, second⟩ := induction next within.2
      exact ⟨last, first.trans second⟩

/-- The machine in front of any event. -/
theorem run_steady {flags : Flags} {clock : Int} {worlds : Nat → World}
    {events : List Event}
    (forward : Along (machineStep flags) Forward (freshMachine clock worlds)
      events) :
    Steady (run (machineStep flags) (freshMachine clock worlds) events).1 :=
  @run_invariant _ _ _ (machineStep flags) _ Steady
    (fun _ _ steady allowed => machineStep_steady steady allowed)
    (freshMachine clock worlds) ⟨valid_create, returning_init clock⟩ _ forward

/-! ## Storing and reading -/

/-- The deadline in milliseconds, with the seconds of the clock. -/
def deadline (t seconds : Int) : Int :=
  (t / 1000 + seconds) * 1000

/-- `SETCTX id json seconds` at a millisecond. -/
structure SetsContext (call : Call) (id json : Bytes) (seconds t : Int) :
    Prop where
  ttl : call.flags.enableTtl = true
  key : call.arg 1 = id
  value : call.arg 2 = json
  number : call.number 3 = seconds
  positive : 1 ≤ seconds
  time : call.world.time = t / 1000
  start : 0 ≤ t
  fits : t + 1000 * seconds < 2 ^ 63

/-- `GETCTX id` at a millisecond. -/
structure GetsContext (call : Call) (id : Bytes) (t : Int) : Prop where
  argc : call.argc = 2
  key : call.arg 1 = id
  now : call.world.now 0 = t

section Calls

variable {call : Call} {store : Store} {id json : Bytes} {seconds t : Int}

theorem SetsContext.expire (sets : SetsContext call id json seconds t) :
    contextExpire call = deadline t seconds := by
  obtain ⟨-, -, -, number, positive, time, start, fits⟩ := sets
  rw [contextExpire, number, time, deadline, if_pos (by omega)]
  have clock : toInt64 (t / 1000 * 1000) = t / 1000 * 1000 :=
    toInt64_of_range (by omega) (by omega)
  have length : toInt64 (seconds * 1000) = seconds * 1000 :=
    toInt64_of_range (by omega) (by omega)
  rw [clock, length, toInt64_of_range (by omega) (by omega), Int.add_mul]

theorem cmdSetctx_stores (valid : Valid store.tables)
    (accepted : (cmdSetctx call store).2.status = .ok) :
    contexts (cmdSetctx call store).1.tables (call.arg 1) =
      some { value := call.arg 2, expireTime := contextExpire call } := by
  rw [cmdSetctx] at accepted ⊢
  split_ifs at accepted ⊢ with few
  · cases accepted
  · dsimp only at accepted ⊢
    have room : ¬ Refuses store.tables (call.arg 1) (.hash .hash2) := by
      intro refused
      have answer := @operate_refused _ valid call.flags.enableTtl
        call.world.level (.hash .hash2)
        (.set (call.arg 1) (call.arg 2) (contextExpire call)) trivial refused
      rw [Store.operate, answer] at accepted
      cases accepted
    have step := @operate_map _ valid call.flags.enableTtl call.world.level
      (.hash .hash2) (.set (call.arg 1) (call.arg 2) (contextExpire call))
      (fun _ => ⟨room, fun lost => Table.noConfusion lost.1⟩)
    have stored := congrFun (congrArg Prod.fst step) (call.arg 1)
    have own : contexts (store.operate call (.hash .hash2)
        (.set (call.arg 1) (call.arg 2) (contextExpire call))).1.tables
          (call.arg 1) =
        some { value := call.arg 2, expireTime := contextExpire call } :=
      stored.trans (if_pos rfl)
    split_ifs <;> exact own

/-- The reply of `GETCTX`. -/
theorem cmdGetctx_reply (valid : Valid store.tables)
    (gets : GetsContext call id t) :
    (cmdGetctx call store).2 =
      kvsSetReplyBody (((contexts store.tables id).filter (fun stored =>
        ¬ Expired call.flags.enableTtl t stored.expireTime)).map
          Item.value) := by
  obtain ⟨argc, rfl, rfl⟩ := gets
  have step := @operate_map _ valid call.flags.enableTtl call.world.level
    (.hash .hash2) (.get (call.world.now 0) (call.arg 1))
    (fun sets => absurd sets not_false)
  have answer := congrArg Prod.snd step
  have two : ¬ decide (call.argc ≠ 2) = true := by
    rw [argc]
    decide
  rw [cmdGetctx, reading, if_neg two]
  dsimp only [Store.operate] at answer ⊢
  rw [answer, Contents.step]
  dsimp only [foundOf]
  rw [purge_self]
  rfl

end Calls

/-! ## The time of a context -/

/-- What `GETCTX` has to answer at a time: the context before its seconds are
over, nothing afterwards.  The length of a context comes from an `int`. -/
def Promised (t seconds : Int) (json : Bytes) (latest : Int)
    (reply : RespReply) : Prop :=
  (latest < t + 1000 * seconds →
      reply = RespReply.bulk json) ∧
    (t + 1000 * seconds < latest → reply = RespReply.plain .noExists)

/-- A stored value is read up to its deadline. -/
theorem filter_unexpired {enableTtl : Bool} (ttl : enableTtl = true)
    {json : Bytes} {expire : Int} (positive : 0 < expire) (latest : Int) :
    (some ({ value := json, expireTime := expire } : Item)).filter
        (fun stored => ¬ Expired enableTtl latest stored.expireTime) =
      if expire < latest then none
      else some { value := json, expireTime := expire } := by
  rw [Option.filter_some]
  by_cases late : expire < latest
  · rw [if_pos late, decide_eq_false (not_not.mpr ⟨ttl, positive, late⟩)]
    rfl
  · rw [if_neg late, decide_eq_true (not_and_of_not_right _
      (not_and_of_not_right _ late))]
    rfl

theorem kvsSetReplyBody_of_ne {json : Bytes} (proper : json ≠ []) :
    kvsSetReplyBody (some json) = RespReply.bulk json :=
  if_pos (List.length_pos_iff.mpr proper)

theorem getOk_ne_noExists (json : Bytes) :
    RespReply.bulk json ≠ RespReply.plain .noExists :=
  fun same => KvsStatus.noConfusion (congrArg RespReply.status same)

/--
A context that is set at a millisecond, in any interleaving with commands that
spare it, steps of the thread and calls of `expire_process_deletes`: `GETCTX`
answers what the seconds promise exactly when it comes before the deadline, or
at the deadline while the context is still stored, or when the seconds are
over.  An empty context is never answered.
-/
theorem context_promised_iff {flags : Flags} {clock : Int}
    {worlds : Nat → World} {before later : List Event}
    {machine last : Machine}
    (forward : Along (machineStep flags) Forward (freshMachine clock worlds)
      before)
    (reached : (run (machineStep flags) (freshMachine clock worlds)
      before).1 = machine)
    {mem : Bytes} {req : RespRequest} {name : Bytes} {id json : Bytes}
    {seconds t : Int}
    (sets : SetsContext (nextCall flags machine.globals mem req) id json
      seconds t)
    (accepted : (kvsExecuteBatch flags machine.globals mem req
      (some ⟨name, .setctx⟩)).2.status = .ok)
    {latest : Int}
    (within : Along (machineStep flags) (Within flags id latest)
      (machineStep flags machine (.command mem req ⟨name, .setctx⟩)).1 later)
    (ended : (run (machineStep flags)
      (machineStep flags machine (.command mem req ⟨name, .setctx⟩)).1
        later).1 = last)
    {mem' : Bytes} {req' : RespRequest} {name' : Bytes}
    (gets : GetsContext (nextCall flags last.globals mem' req') id latest) :
    Promised t seconds json latest
        (kvsExecuteBatch flags last.globals mem' req'
          (some ⟨name', .getctx⟩)).2 ↔
      (latest < t + 1000 * seconds →
        json ≠ [] ∧
          (latest < deadline t seconds ∨
            latest = deadline t seconds ∧
              contexts last.globals.store.tables id ≠ none)) := by
  have steady : Steady machine := reached ▸ run_steady forward
  have stored := @cmdSetctx_stores (nextCall flags machine.globals mem req)
    (tick machine.globals).store steady.valid accepted
  rw [sets.key, sets.value, sets.expire] at stored
  obtain ⟨after, lasts⟩ := run_lasts
    (@machineStep_steady flags machine (.command mem req ⟨name, .setctx⟩)
      steady trivial) within
  rw [ended] at after lasts
  have lasting : Lasts latest
      (some { value := json, expireTime := deadline t seconds })
      (contexts last.globals.store.tables id) :=
    stored ▸ lasts
  have reply := @cmdGetctx_reply (nextCall flags last.globals mem' req')
    (tick last.globals).store id latest after.valid gets
  have answered : (kvsExecuteBatch flags last.globals mem' req'
      (some ⟨name', .getctx⟩)).2 = _ := reply
  have positive : 0 < deadline t seconds := by
    have start := sets.start
    have least := sets.positive
    rw [deadline]
    omega
  have early : deadline t seconds ≤ t + 1000 * seconds := by
    rw [deadline]
    omega
  rw [answered, Promised]
  rcases lasting with still | ⟨gone, item, here, late⟩
  · have ttl : (nextCall flags last.globals mem' req').flags.enableTtl =
        true :=
      sets.ttl
    rw [still, show contexts (tick last.globals).store.tables id = _ from
      still, filter_unexpired ttl positive latest]
    by_cases late : deadline t seconds < latest
    · rw [if_pos late]
      constructor
      · intro promised soon
        exact absurd (promised.1 soon).symm (getOk_ne_noExists json)
      · intro condition
        refine ⟨fun soon => ?_, fun _ => rfl⟩
        rcases (condition soon).2 with before | ⟨same, -⟩
        · exact absurd late (not_lt.mpr before.le)
        · exact absurd late (not_lt.mpr same.le)
    · rw [if_neg late, Option.map_some]
      constructor
      · intro promised soon
        refine ⟨?_, ?_⟩
        · rintro rfl
          exact absurd (promised.1 soon).symm (getOk_ne_noExists [])
        · rcases lt_or_eq_of_le (not_lt.mp late) with before | same
          · exact Or.inl before
          · exact Or.inr ⟨same, Option.some_ne_none _⟩
      · intro condition
        refine ⟨fun soon => kvsSetReplyBody_of_ne (condition soon).1,
          fun passed => ?_⟩
        exact absurd (early.trans_lt passed) late
  · cases here
    rw [gone, show contexts (tick last.globals).store.tables id = _ from gone]
    constructor
    · intro promised soon
      exact absurd (promised.1 soon).symm (getOk_ne_noExists json)
    · intro condition
      refine ⟨fun soon => ?_, fun _ => rfl⟩
      rcases (condition soon).2 with before | ⟨-, stored⟩
      · exact absurd late (not_le.mpr before)
      · exact absurd rfl stored

/-- The outside for a command at one time and one at another. -/
def contextWorlds (t latest : Int) : Nat → World
  | 0 => { (default : World) with now := fun _ => t, time := t / 1000 }
  | _ => { (default : World) with now := fun _ => latest }

/-- `SETCTX c {} 1`. -/
def setArgs : List Bytes :=
  [ascii "SETCTX", ascii "c", [123, 125], ascii "1"]

/-- `GETCTX c`. -/
def getArgs : List Bytes :=
  [ascii "GETCTX", ascii "c"]

/-- The request of a frame in its own buffer. -/
def ownRequest (args : List Bytes) : RespRequest :=
  respUnpackNoModify (respEncode args) 0 (respEncode args).length

/-- The machine after `SETCTX c {} 1`. -/
def contextMachine (t latest : Int) : Machine :=
  (machineStep expiryFlags (freshMachine 0 (contextWorlds t latest))
    (.command (respEncode setArgs) (ownRequest setArgs)
      ⟨ascii "SETCTX", .setctx⟩)).1

/-- What `GETCTX c` answers after some events. -/
def contextReply (t latest : Int) (later : List Event) : RespReply :=
  (kvsExecuteBatch expiryFlags
    (run (machineStep expiryFlags) (contextMachine t latest) later).1.globals
    (respEncode getArgs) (ownRequest getArgs)
    (some ⟨ascii "GETCTX", .getctx⟩)).2

theorem context_promised_full_second :
    Promised 2000 1 [123, 125] 2500
      (contextReply 2000 2500 [.thread 2400, .process 2450 500]) := by
  refine (@context_promised_iff expiryFlags 0 (contextWorlds 2000 2500) []
    [.thread 2400, .process 2450 500]
    (freshMachine 0 (contextWorlds 2000 2500)) _
    trivial rfl (respEncode setArgs) (ownRequest setArgs) (ascii "SETCTX")
    (ascii "c") [123, 125] 1 2000 ?_ ?_ 2500
    ⟨⟨by decide, by decide⟩, ⟨by decide, by decide⟩, trivial⟩ rfl
    (respEncode getArgs) (ownRequest getArgs) (ascii "GETCTX") ?_).mpr ?_
  · exact ⟨rfl, by decide +kernel, by decide +kernel, by decide +kernel,
      by decide, by decide +kernel, by decide, by decide⟩
  · decide +kernel
  · exact ⟨by decide +kernel, by decide +kernel, by decide +kernel⟩
  · exact fun _ => ⟨by decide, Or.inl (by decide)⟩

/-- `SETCTX c {} 1` late in a second: the context is gone after half its
time. -/
theorem context_gone_early :
    lookupCommand (respEncode setArgs) 8 6 =
        some ⟨ascii "SETCTX", .setctx⟩ ∧
      SetsContext (nextCall expiryFlags
        (freshMachine 0 (contextWorlds 1999 2500)).globals
        (respEncode setArgs) (ownRequest setArgs)) (ascii "c") [123, 125] 1
          1999 ∧
      contextReply 1999 2500 [] = RespReply.plain .noExists ∧
      ¬ Promised 1999 1 [123, 125] 2500 (contextReply 1999 2500 []) := by
  have reply : contextReply 1999 2500 [] = RespReply.plain .noExists := by
    decide +kernel
  refine ⟨by decide +kernel, ?_, reply, ?_⟩
  · exact ⟨rfl, by decide +kernel, by decide +kernel, by decide +kernel,
      by decide, by decide +kernel, by decide, by decide⟩
  · intro promised
    rw [reply] at promised
    exact absurd (promised.1 (by decide)).symm (getOk_ne_noExists _)

end Kivo.Server.ContextTime
