import Kivo.Server.ActiveExpiry

/-!
# The hash cache of a timer

`expire_push_cmd` builds its item on the stack and sets the pointer and the
length of the key, but not the cache of its hash.  The item travels by value
through the command queue, the heap and the delete queue, and when it comes
back, `kvs_hash_del_if_expired` looks for the key in the bucket that the cache
names.  The entry is removed exactly when this is the bucket of the key.
-/

namespace Kivo.Server.StaleHash

open Kivo.Clib.Memory
open Kivo.Clib.Simulation
open Kivo.Engine
open Kivo.Engine.Data
open Kivo.Engine.KeyMap
open Kivo.Engine.HashEngine
open Kivo.Engine.HashTable (HashOk)
open Kivo.Engine.Store
open Kivo.Resp.Frame
open Kivo.Resp.Stream
open Kivo.Server
open Kivo.Server.State
open Kivo.Server.Expire
open Kivo.Server.Timers
open Kivo.Server.Commands
open Kivo.Server.CommandTable
open Kivo.Server.Handlers
open Kivo.Server.ActiveExpiry

/-! ## The way of an item -/

/-- The item in hand of the thread has a property. -/
def InHand (holds : ExpireItem → Prop) : ThreadPhase → Prop
  | .insert item => holds item
  | .deliver _ item => holds item
  | _ => True

/-- Every item on its way has a property. -/
structure Carried (holds : ExpireItem → Prop) (expire : ExpireSystem) :
    Prop where
  cmdOk : QueueOk expire.cmdQueue
  deleteOk : QueueOk expire.deleteQueue
  cmd : ∀ item ∈ ExpireQueue.contents expire.cmdQueue, holds item
  heap : Below holds expire.heap.size expire.heap.data
  phase : InHand holds expire.phase
  delete : ∀ item ∈ ExpireQueue.contents expire.deleteQueue, holds item

section Carrying

variable {holds : ExpireItem → Prop} {expire : ExpireSystem}

theorem carried_init (holds : ExpireItem → Prop) :
    Carried holds expireSystemInit :=
  ⟨queueOk_zero, queueOk_zero, fun _ member => absurd member List.not_mem_nil,
    fun _ inside => absurd inside (Nat.not_lt_zero _), trivial,
    fun _ member => absurd member List.not_mem_nil⟩

theorem Carried.mono {others : ExpireItem → Prop}
    (carried : Carried holds expire) (wider : ∀ item, holds item → others item) :
    Carried others expire := by
  refine ⟨carried.cmdOk, carried.deleteOk,
    fun item member => wider item (carried.cmd item member),
    fun index inside => wider _ (carried.heap index inside), ?_,
    fun item member => wider item (carried.delete item member)⟩
  have phase := carried.phase
  cases stands : expire.phase with
  | collect => trivial
  | insert item =>
      rw [stands] at phase
      exact wider item phase
  | fire now => trivial
  | deliver now item =>
      rw [stands] at phase
      exact wider item phase

/-- The thread moves items on. -/
theorem Carried.threadStep (carried : Carried holds expire) (now : Int) :
    Carried holds (expireThreadStep now expire) := by
  obtain ⟨cmdOk, deleteOk, cmd, heap, phase, delete⟩ := carried
  have move := expireThreadStep_move now expire
  generalize expireThreadStep now expire = next at move ⊢
  cases move with
  | take stands popped =>
      obtain ⟨taken, rest⟩ := queuePop_forall cmdOk popped cmd
      exact ⟨(queuePop_contents cmdOk popped).1, deleteOk, rest, heap, taken,
        delete⟩
  | look stands empty =>
      exact ⟨cmdOk, deleteOk, cmd, heap, trivial, delete⟩
  | insert stands =>
      rw [stands] at phase
      exact ⟨cmdOk, deleteOk, cmd, heap.heapPush phase, trivial, delete⟩
  | ripen stands ripe popped =>
      obtain ⟨-, top, below⟩ := heap.heapPop popped
      exact ⟨cmdOk, deleteOk, cmd, below, top, delete⟩
  | again stands idle =>
      exact ⟨cmdOk, deleteOk, cmd, heap, trivial, delete⟩
  | deliver stands pushed =>
      rw [stands] at phase
      exact ⟨cmdOk, (queuePush_contents deleteOk pushed).1, cmd, heap,
        trivial, queuePush_forall deleteOk pushed delete phase⟩
  | wait stands full => exact ⟨cmdOk, deleteOk, cmd, heap, phase, delete⟩

/-- `queue_pop` of the main thread. -/
theorem Carried.take (carried : Carried holds expire) {item : ExpireItem}
    {queue : ExpireQueue}
    (popped : queuePop expire.deleteQueue = some (item, queue)) :
    holds item ∧ Carried holds { expire with deleteQueue := queue } := by
  obtain ⟨taken, rest⟩ :=
    queuePop_forall carried.deleteOk popped carried.delete
  exact ⟨taken, carried.cmdOk, (queuePop_contents carried.deleteOk popped).1,
    carried.cmd, carried.heap, carried.phase, rest⟩

/-- `expire_push_cmd` brings in one item or none. -/
theorem Carried.pushCmd (carried : Carried holds expire) {stack : UInt64}
    {type : ExpireType} {key : Bytes} {time : Int}
    (fresh : ∀ item, item.hashCache = stack →
      ExpireQueue.contents
          (expirePushCmd stack type key time expire).cmdQueue =
        ExpireQueue.contents expire.cmdQueue ++ [item] → holds item) :
    Carried holds (expirePushCmd stack type key time expire) := by
  rcases expirePushCmd_cases stack type key time expire with
    same | ⟨item, queue, -, cached, -, pushed, handed⟩
  · rw [same]
    exact carried
  · rw [handed] at fresh ⊢
    obtain ⟨ok, appended⟩ := queuePush_contents carried.cmdOk pushed
    exact ⟨ok, carried.deleteOk,
      queuePush_forall carried.cmdOk pushed carried.cmd
        (fresh item cached appended),
      carried.heap, carried.phase, carried.delete⟩

end Carrying

/-! ## Where an item comes from -/

/-- The event hands the item over, with what lies on the stack as its hash
cache. -/
def Registers (flags : Flags) (machine : Machine) (item : ExpireItem) :
    Event → Prop
  | .command mem req command =>
      item.hashCache =
          (nextCall flags machine.globals mem req).world.stack ∧
        ExpireQueue.contents
            (machineStep flags machine
              (.command mem req command)).1.globals.store.expire.cmdQueue =
          ExpireQueue.contents machine.globals.store.expire.cmdQueue ++ [item]
  | _ => False

/-- An event of the run hands the item over. -/
def Registered (flags : Flags) (machine : Machine) (events : List Event)
    (item : ExpireItem) : Prop :=
  ∃ front event, front ++ [event] <+: events ∧
    Registers flags (run (machineStep flags) machine front).1 item event

theorem Effect.carried {proc : Proc} {call : Call} {before after : Store}
    (effect : Effect proc call before after) {holds : ExpireItem → Prop}
    (carried : Carried holds before.expire)
    (fresh : ∀ item, item.hashCache = call.world.stack →
      ExpireQueue.contents after.expire.cmdQueue =
        ExpireQueue.contents before.expire.cmdQueue ++ [item] →
          holds item) :
    Carried holds after.expire := by
  rcases effect.expire_cases with same | ⟨type, key, time, handed, -⟩
  · rw [same]
    exact carried
  · rw [handed] at fresh ⊢
    exact carried.pushCmd fresh

theorem expireProcessLoop_carried {holds : ExpireItem → Prop} {flags : Flags}
    {left : Nat} {globals : Globals Store}
    (carried : Carried holds globals.store.expire) :
    Carried holds (expireProcessLoop flags left globals).store.expire := by
  refine @expireProcessLoop_keeps flags
    (fun later => Carried holds later.store.expire) ?_ left _ carried
  intro globals next carried processed
  obtain ⟨item, queue, popped, store⟩ := expireProcessOne_store processed
  rw [store]
  exact (carried.take popped).2

theorem expireProcessLoop_valid {flags : Flags} {left : Nat}
    {globals : Globals Store} (valid : Valid globals.store.tables) :
    Valid (expireProcessLoop flags left globals).store.tables := by
  refine @expireProcessLoop_keeps flags
    (fun later => Valid later.store.tables) ?_ left _ valid
  intro globals next valid processed
  obtain ⟨item, queue, -, store⟩ := expireProcessOne_store processed
  rw [store]
  exact (engineDelIfExpired_removes valid item).1

/-- One event carries items on and brings in those that it hands over. -/
theorem machineStep_carried {flags : Flags} {machine : Machine}
    {holds : ExpireItem → Prop}
    (carried : Carried holds machine.globals.store.expire) (event : Event)
    (fresh : ∀ item, Registers flags machine item event → holds item) :
    Carried holds (machineStep flags machine event).1.globals.store.expire := by
  cases event with
  | command mem req command =>
      refine Effect.carried (Proc.run_effect command.proc
        (nextCall flags machine.globals mem req) (tick machine.globals))
        carried ?_
      exact fun item stack appended => fresh item ⟨stack, appended⟩
  | thread now => exact carried.threadStep now
  | process now left => exact expireProcessLoop_carried carried

/-- Every item on its way has been handed over in the run. -/
theorem run_carried (flags : Flags) (clock : Int) (worlds : Nat → World)
    (events : List Event) :
    Carried (Registered flags (freshMachine clock worlds) events)
      (run (machineStep flags) (freshMachine clock worlds)
        events).1.globals.store.expire := by
  induction events using List.reverseRecOn with
  | nil => exact carried_init _
  | append_singleton events event induction =>
      rw [run_append]
      refine machineStep_carried (induction.mono ?_) event ?_
      · rintro item ⟨front, earlier, inside, registers⟩
        exact ⟨front, earlier, inside.trans (List.prefix_append _ _),
          registers⟩
      · intro item registers
        exact ⟨events, event, List.prefix_rfl, registers⟩

/-! ## The bucket that is searched -/

/-- The cache names the bucket of the key. -/
def OwnBucket (hash : KvsHash) (item : ExpireItem) : Prop :=
  kvDataHash item.key item.hashCache hash.maxSlots =
    kvDataHash item.key 0 hash.maxSlots

instance (hash : KvsHash) (item : ExpireItem) :
    Decidable (OwnBucket hash item) :=
  inferInstanceAs (Decidable (_ = _))

/-- In its own bucket the entry is found and removed. -/
theorem kvsHashDelIfExpired_own {hash : KvsHash} (ok : HashOk hash)
    {item : ExpireItem} (own : OwnBucket hash item)
    (present : (contents (HashTable.entries hash) item.key).map
      Item.expireTime = some item.expireTime) :
    ∃ after, kvsHashDelIfExpired hash item.key item.hashCache
        item.expireTime = (after, true) ∧
      ∀ entry ∈ HashTable.entries after, entry.key ≠ item.key := by
  have same : kvsHashDelIfExpired hash item.key item.hashCache
      item.expireTime =
      kvsHashDelIfExpired hash item.key 0 item.expireTime := by
    rw [kvsHashDelIfExpired, kvsHashDelIfExpired, hashFind, hashFind,
      kvsHashDel, kvsHashDel, own]
  obtain ⟨after, result⟩ := HashRuns.kvsHashDelIfExpired_contents ok
    (Or.inl rfl : HashTable.CacheOk item.key 0) item.expireTime
  rw [if_pos present] at result
  obtain ⟨erased, deleted⟩ := Prod.mk.inj result
  refine ⟨(kvsHashDelIfExpired hash item.key 0 item.expireTime).1, ?_, ?_⟩
  · rw [same]
    exact Prod.ext rfl deleted
  · intro entry member here
    rw [mem_iff_contents after.distinct_entries] at member
    have nothing := congrFun erased entry.key
    rw [member, here, erase_self] at nothing
    cases nothing

/-- In another bucket nothing is found. -/
theorem kvsHashDelIfExpired_other {hash : KvsHash} (ok : HashOk hash)
    {item : ExpireItem} (other : ¬ OwnBucket hash item) (expected : Int) :
    kvsHashDelIfExpired hash item.key item.hashCache expected =
      (hash, false) := by
  cases found : hashFind hash item.key item.hashCache with
  | none => rw [kvsHashDelIfExpired, found]
  | some node => exact absurd (kvDataHash_of_found ok found) other

/-! ## What a call does -/

/-- The entry of the item is removed, and the deletion is logged under the
command of its table. -/
def Deletes (flags : Flags) (before after : Globals Store)
    (item : ExpireItem) : Prop :=
  let logged := before.logFrame flags
    (internalDelFrame item.type.delCommand item.key)
  (∀ entry ∈ after.store.tables.entries item.type.table,
      entry.key ≠ item.key) ∧
    after.persisted = logged.persisted ∧ after.repl = logged.repl

/-- One iteration of `expire_process_deletes` for the timer of a hash table. -/
theorem expireProcessOne_deletes_iff {flags : Flags}
    {globals : Globals Store} (valid : Valid globals.store.tables)
    {item : ExpireItem} {queue : ExpireQueue}
    (popped : queuePop globals.store.expire.deleteQueue =
      some (item, queue))
    {name : HashName} (hashed : item.type.table = .hash name)
    {entry : Entry}
    (present : entry ∈ globals.store.tables.entries (.hash name))
    (key : entry.key = item.key) (time : entry.expireTime = item.expireTime) :
    ∃ after, expireProcessOne flags globals = some after ∧
      (Deletes flags globals after item ↔
        OwnBucket (globals.store.tables.hashes name) item) := by
  have ok := valid.hashes name
  have stored : (contents (HashTable.entries
      (globals.store.tables.hashes name)) item.key).map Item.expireTime =
      some item.expireTime := by
    have found := (mem_iff_contents ok.distinct_entries entry).mp present
    rw [← key, found, ← time]
    rfl
  have removal : engineDelIfExpired globals.store.tables item =
      ({ globals.store.tables with
          hashes := Function.update globals.store.tables.hashes name
            (kvsHashDelIfExpired (globals.store.tables.hashes name) item.key
              item.hashCache item.expireTime).1 },
        (kvsHashDelIfExpired (globals.store.tables.hashes name) item.key
          item.hashCache item.expireTime).2) := by
    rw [engineDelIfExpired, hashed]
  rw [expireProcessOne, popped]
  refine ⟨_, rfl, ?_⟩
  by_cases own : OwnBucket (globals.store.tables.hashes name) item
  · obtain ⟨after, deleted, gone⟩ := kvsHashDelIfExpired_own ok own stored
    rw [deleted] at removal
    rw [removal, if_pos rfl, Deletes, hashed]
    refine ⟨fun _ => own, fun _ => ⟨?_, rfl, rfl⟩⟩
    dsimp only [Globals.logFrame_store, Tables.entries]
    rw [Function.update_self]
    exact gone
  · rw [kvsHashDelIfExpired_other ok own] at removal
    rw [removal, if_neg Bool.false_ne_true, Deletes, hashed]
    refine ⟨fun deletes => absurd key (deletes.1 entry ?_),
      fun other => absurd other own⟩
    dsimp only [Tables.entries]
    rw [Function.update_self]
    exact present

theorem run_valid (flags : Flags) (clock : Int) (worlds : Nat → World)
    (events : List Event) :
    Valid (run (machineStep flags) (freshMachine clock worlds)
      events).1.globals.store.tables := by
  refine @run_invariant _ _ _ (machineStep flags) (fun _ _ => True)
    (fun machine => Valid machine.globals.store.tables) ?_ _ valid_create _
    (along_of_forall (fun _ _ => trivial) _)
  intro machine event valid _
  cases event with
  | command mem req command => exact kvsExecuteBatch_valid valid _ _ _ _
  | thread now => exact valid
  | process now left => exact expireProcessLoop_valid valid

/--
When a timer of a hash table comes back and its entry is still there with its
time, the call removes the entry and logs the deletion exactly when the cache of
the item names the bucket of the key.  The cache is what lay on the stack when
the timer was handed over, whatever happened since.
-/
theorem hashTimer_deletes_iff {flags : Flags} {clock : Int}
    {worlds : Nat → World} {events : List Event} {machine : Machine}
    (reached : (run (machineStep flags) (freshMachine clock worlds)
      events).1 = machine)
    {item : ExpireItem} {queue : ExpireQueue}
    (popped : queuePop machine.globals.store.expire.deleteQueue =
      some (item, queue))
    {name : HashName} (hashed : item.type.table = .hash name)
    {entry : Entry}
    (present : entry ∈ machine.globals.store.tables.entries (.hash name))
    (key : entry.key = item.key) (time : entry.expireTime = item.expireTime) :
    Registered flags (freshMachine clock worlds) events item ∧
      ∃ after, expireProcessOne flags machine.globals = some after ∧
        (Deletes flags machine.globals after item ↔
          OwnBucket (machine.globals.store.tables.hashes name) item) := by
  have carried := run_carried flags clock worlds events
  have valid := run_valid flags clock worlds events
  rw [reached] at carried valid
  exact ⟨(carried.take popped).1,
    expireProcessOne_deletes_iff valid popped hashed present key time⟩

/-- `HSET k v 2000000000` names a point in time. -/
def timedHash : List Bytes :=
  [ascii "HSET", ascii "k", ascii "v", ascii "2000000000"]

/-- `HSET k v 2000000000` is executed, and the thread brings its timer back. -/
def hashTimerRun : List Event :=
  [.command (respEncode timedHash)
    (respUnpackNoModify (respEncode timedHash) 0 (respEncode timedHash).length)
    { name := ascii "HSET", proc := .hashSet },
    .thread 2000000001, .thread 2000000001, .thread 2000000001,
    .thread 2000000001, .thread 2000000001]

/-- The machine after this run, with a word on the stack. -/
def hashTimerMachine (word : UInt64) : Machine :=
  (run (machineStep expiryFlags)
    (freshMachine 1000 (fun _ => { (default : World) with stack := word }))
    hashTimerRun).1

/-- The item that comes back carries the word. -/
def hashTimerItem (word : UInt64) : ExpireItem :=
  { type := .hash
    key := ascii "k"
    hashCache := word
    expireTime := 2000000000 }

/-- An empty stack leads to the deletion. -/
theorem hashTimer_deletes_empty :
    ∃ after, expireProcessOne expiryFlags (hashTimerMachine 0).globals =
        some after ∧
      Deletes expiryFlags (hashTimerMachine 0).globals after
        (hashTimerItem 0) := by
  have front : (queuePop
      (hashTimerMachine 0).globals.store.expire.deleteQueue).map Prod.fst =
      some (hashTimerItem 0) := by
    decide +kernel
  obtain ⟨⟨item, queue⟩, popped, rfl⟩ := Option.map_eq_some_iff.mp front
  obtain ⟨-, after, processed, deletes⟩ :=
    @hashTimer_deletes_iff expiryFlags 1000
      (fun _ => { (default : World) with stack := 0 }) hashTimerRun
      (hashTimerMachine 0) rfl (hashTimerItem 0) queue popped .hash rfl
      { key := ascii "k", value := ascii "v", expireTime := 2000000000 }
      (by decide +kernel) rfl rfl
  exact ⟨after, processed, deletes.mpr rfl⟩

/-- With another word on the stack the entry stays, and nothing is logged. -/
theorem hashTimer_keeps_entry :
    lookupCommand (respEncode timedHash) 8 4 =
        some { name := ascii "HSET", proc := .hashSet } ∧
      (hashTimerMachine 1).globals.store.tables.entries (.hash .hash) =
        [{ key := ascii "k"
           value := ascii "v"
           expireTime := 2000000000 }] ∧
      (queuePop
        (hashTimerMachine 1).globals.store.expire.deleteQueue).map Prod.fst =
        some (hashTimerItem 1) ∧
      (expireProcessDeletes expiryFlags
        (hashTimerMachine 1).globals).store.tables.entries (.hash .hash) =
        [{ key := ascii "k"
           value := ascii "v"
           expireTime := 2000000000 }] ∧
      (expireProcessDeletes expiryFlags
        (hashTimerMachine 1).globals).persisted =
        (hashTimerMachine 1).globals.persisted := by
  refine ⟨?_, ?_, ?_, ?_, ?_⟩ <;> decide +kernel

end Kivo.Server.StaleHash
