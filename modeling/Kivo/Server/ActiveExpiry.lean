import Kivo.Server.Handlers
import Kivo.Server.Timers

/-!
# What active expiry removes

Commands, steps of the expire thread and calls of `expire_process_deletes`
follow each other in any order.  An entry is removed when a timer with the very
time of the entry comes back.  Timers come back when they are due, so as long
as every timer has a positive time, active expiry removes what has expired and
nothing else.

`cmd_array_set` is the one handler that hands over a timer without looking at
the time: the timer of an entry that never expires is due at once.
-/

namespace Kivo.Server.ActiveExpiry

open Kivo.Clib.Memory
open Kivo.Clib.Simulation
open Kivo.Clib.Slots
open Kivo.Engine
open Kivo.Engine.Data
open Kivo.Engine.KeyMap
open Kivo.Engine.ArrayEngine
open Kivo.Engine.HashEngine
open Kivo.Engine.RbtreeEngine
open Kivo.Engine.RbtreeOrder
open Kivo.Engine.SkipEngine
open Kivo.Engine.SkipOrder
open Kivo.Engine.Store
open Kivo.Resp.Frame
open Kivo.Resp.Stream
open Kivo.Server.State
open Kivo.Server.Expire
open Kivo.Server.Timers
open Kivo.Server.Commands
open Kivo.Server.CommandTable
open Kivo.Server.Handlers

/-! ## Calls -/

/-- Take the next timer, delete its entry when it still has the time of the
timer, and log the deletion; `none` when no timer is there. -/
def expireProcessOne (flags : Flags) (globals : Globals Store) :
    Option (Globals Store) :=
  match queuePop globals.store.expire.deleteQueue with
  | none => none
  | some (item, queue) =>
      let result := engineDelIfExpired globals.store.tables item
      let removed : Globals Store :=
        { globals with
          store :=
            { globals.store with
              tables := result.1
              expire :=
                { globals.store.expire with deleteQueue := queue } } }
      some
        (if result.2 then
          removed.logFrame flags
            (internalDelFrame item.type.delCommand item.key)
        else removed)

/-- The loop of `expire_process_deletes`, with the number of iterations that
`cnt` leaves. -/
def expireProcessLoop (flags : Flags) : Nat → Globals Store → Globals Store
  | 0, globals => globals
  | left + 1, globals =>
      match expireProcessOne flags globals with
      | none => globals
      | some next => expireProcessLoop flags left next

/-- `expire_process_deletes`. -/
def expireProcessDeletes (flags : Flags) (globals : Globals Store) :
    Globals Store :=
  expireProcessLoop flags 500 globals

/-- An iteration takes the next timer and deletes its entry, when the entry
still has the time of the timer. -/
theorem expireProcessOne_store {flags : Flags} {globals next : Globals Store}
    (processed : expireProcessOne flags globals = some next) :
    ∃ item queue,
      queuePop globals.store.expire.deleteQueue = some (item, queue) ∧
        next.store =
          { globals.store with
            tables := (engineDelIfExpired globals.store.tables item).1
            expire :=
              { globals.store.expire with deleteQueue := queue } } := by
  rw [expireProcessOne] at processed
  split at processed
  · cases processed
  · rename_i item queue popped
    refine ⟨item, queue, popped, ?_⟩
    rw [← Option.some.inj processed]
    split_ifs <;> rfl

/-- What every iteration keeps, the loop keeps. -/
theorem expireProcessLoop_keeps {flags : Flags} {kept : Globals Store → Prop}
    (one : ∀ {globals next : Globals Store}, kept globals →
      expireProcessOne flags globals = some next → kept next)
    (left : Nat) {globals : Globals Store} (start : kept globals) :
    kept (expireProcessLoop flags left globals) := by
  induction left generalizing globals with
  | zero => exact start
  | succ left induction =>
      rw [expireProcessLoop]
      split
      · exact start
      · rename_i next processed
        exact induction (one start processed)

/-! ## Removals -/

/-- Nothing but entries with a time is removed. -/
def RemovesOnly (fits : Entry → Prop) (before after : Tables) : Prop :=
  ∀ table, ∀ entry ∈ before.entries table,
    entry ∉ after.entries table → fits entry

theorem RemovesOnly.refl (fits : Entry → Prop) (tables : Tables) :
    RemovesOnly fits tables tables :=
  fun _ _ member gone => absurd member gone

theorem RemovesOnly.trans {fits : Entry → Prop}
    {before between after : Tables} (first : RemovesOnly fits before between)
    (second : RemovesOnly fits between after) :
    RemovesOnly fits before after := by
  intro table entry member gone
  by_cases still : entry ∈ between.entries table
  · exact second table entry still gone
  · exact first table entry member still

/-- A conditional deletion removes an entry with the expected time. -/
theorem removed_time {before after : List Entry} {key : Bytes}
    {expected : Int} (distinct : (before.map Entry.key).Nodup)
    (distinct' : (after.map Entry.key).Nodup)
    (result : contents after =
      ((contents before).step false (.delIfExpired key expected)).1)
    {entry : Entry} (member : entry ∈ before) (gone : entry ∉ after) :
    entry.expireTime = expected := by
  rw [mem_iff_contents distinct] at member
  rw [mem_iff_contents distinct', result, Contents.step] at gone
  split_ifs at gone with due
  · by_cases same : entry.key = key
    · rw [← same, member] at due
      exact Option.some.inj due
    · have kept : (contents before).erase key entry.key =
          contents before entry.key :=
        if_neg same
      exact absurd (kept.trans member) gone
  · exact absurd member gone

/-- `kvs_array_del` removes the slot that the key is found at. -/
theorem kvsArrayDel_removes {inst : KvsArray} {key : Bytes}
    {slot : ArrayItem} (found : arrayFind inst key = some slot)
    {entry : Entry} (member : entry ∈ ArrayRuns.entries inst)
    (gone : entry ∉ ArrayRuns.entries (kvsArrayDel inst key).1) :
    entry = slot.entry := by
  rw [arrayFind, List.find?_eq_bind_findIdx?_getElem?,
    Option.bind_eq_some_iff] at found
  obtain ⟨index, search, here⟩ := found
  obtain ⟨front, element, back, split, rfl, -, -⟩ := findIdx?_split search
  rw [split, getElem?_split] at here
  obtain rfl := Option.some.inj here
  have removed : (kvsArrayDel inst key).1 =
      { items := removeSlot inst.items front.length } := by
    rw [kvsArrayDel, findKeyIndex, search]
  have perm := ArrayRuns.removeSlot_perm front element back
  rw [removed, ArrayRuns.entries, split,
    (perm.map ArrayItem.entry).mem_iff] at gone
  rw [ArrayRuns.entries, split] at member
  simp only [List.map_append, List.map_cons, List.mem_append,
    List.mem_cons] at member gone
  rcases member with early | same | late
  · exact absurd (Or.inl early) gone
  · exact same
  · exact absurd (Or.inr late) gone

theorem kvsArrayDelIfExpired_removes {inst : KvsArray} {key : Bytes}
    {expected : Int} {entry : Entry}
    (member : entry ∈ ArrayRuns.entries inst)
    (gone : entry ∉ ArrayRuns.entries
      (kvsArrayDelIfExpired inst key expected).1) :
    entry.expireTime = expected := by
  rw [kvsArrayDelIfExpired] at gone
  cases found : arrayFind inst key with
  | none =>
      rw [found] at gone
      exact absurd member gone
  | some slot =>
      rw [found] at gone
      dsimp only at gone
      split_ifs at gone with other
      · exact absurd member gone
      · rw [kvsArrayDel_removes found member gone]
        exact not_not.mp other

/-- A key that is found under any hash cache lies in its own bucket. -/
theorem kvDataHash_of_found {hash : KvsHash} (ok : HashTable.HashOk hash)
    {key : Bytes} {hashCache : UInt64} {node : HashNode}
    (found : hashFind hash key hashCache = some node) :
    kvDataHash key hashCache hash.maxSlots =
      kvDataHash key 0 hash.maxSlots := by
  rw [hashFind, Option.bind_eq_some_iff] at found
  obtain ⟨bucket, slot, search⟩ := found
  have member := List.mem_of_find?_eq_some search
  have same := HashTable.hasKey_iff.mp (List.find?_some search)
  have placed := placedFrom_getElem? ok.placed slot member
  have inside : node ∈ HashTable.nodes hash :=
    List.mem_flatten.mpr ⟨bucket, List.mem_of_getElem? slot, member⟩
  rw [HashTable.slotOf, ok.cached node inside, same] at placed
  rw [← placed, HashTable.kvDataHash_eq (Or.inl rfl)]

/-- What lies on the stack does not matter: either the key is not found, or
the deletion is the one with an empty hash cache. -/
theorem kvsHashDelIfExpired_cached {hash : KvsHash}
    (ok : HashTable.HashOk hash) (key : Bytes) (hashCache : UInt64)
    (expected : Int) :
    (kvsHashDelIfExpired hash key hashCache expected).1 = hash ∨
      (kvsHashDelIfExpired hash key hashCache expected).1 =
        (kvsHashDelIfExpired hash key 0 expected).1 := by
  cases found : hashFind hash key hashCache with
  | none =>
      left
      rw [kvsHashDelIfExpired, found]
  | some node =>
      right
      have slot := kvDataHash_of_found ok found
      rw [kvsHashDelIfExpired, kvsHashDelIfExpired, hashFind, hashFind,
        kvsHashDel, kvsHashDel, slot]

/-- Only one table is touched. -/
theorem removesOnly_at {fits : Entry → Prop} {before after : Tables}
    (table : Table)
    (frame : ∀ other, other ≠ table →
      after.entries other = before.entries other)
    (own : ∀ entry ∈ before.entries table,
      entry ∉ after.entries table → fits entry) :
    RemovesOnly fits before after := by
  intro other entry member gone
  by_cases here : other = table
  · subst here
    exact own entry member gone
  · rw [frame other here] at gone
    exact absurd member gone

/-- What a timer that comes back removes carries its time. -/
theorem engineDelIfExpired_removes {tables : Tables} (valid : Valid tables)
    (item : ExpireItem) :
    Valid (engineDelIfExpired tables item).1 ∧
      RemovesOnly (fun entry => entry.expireTime = item.expireTime) tables
        (engineDelIfExpired tables item).1 := by
  rw [engineDelIfExpired]
  cases item.type.table with
  | array =>
      refine ⟨valid.operate false 0 .array
        (.delIfExpired item.key item.expireTime),
        removesOnly_at .array ?_ ?_⟩
      · intro other apart
        cases other <;> first | rfl | exact absurd rfl apart
      · intro entry member gone
        exact kvsArrayDelIfExpired_removes member gone
  | rbtree =>
      have after := valid.operate false 0 .rbtree
        (.delIfExpired item.key item.expireTime)
      refine ⟨after, removesOnly_at .rbtree ?_ ?_⟩
      · intro other apart
        cases other <;> first | rfl | exact absurd rfl apart
      · intro entry member gone
        exact removed_time (valid.distinct .rbtree) (after.distinct .rbtree)
          (RbtreeRuns.rbtreeStep_represents false ⟨valid.rbtree, rfl⟩
            (.delIfExpired item.key item.expireTime)).1.2 member gone
  | hash name =>
      dsimp only
      rcases kvsHashDelIfExpired_cached (valid.hashes name) item.key
        item.hashCache item.expireTime with same | same
      · rw [same, Function.update_eq_self]
        exact ⟨valid, .refl _ _⟩
      · rw [same]
        have after := valid.operate false 0 (.hash name)
          (.delIfExpired item.key item.expireTime)
        refine ⟨after, removesOnly_at (.hash name) ?_ ?_⟩
        · intro other apart
          cases other with
          | hash other =>
              have different : other ≠ name :=
                fun equal => apart (congrArg Table.hash equal)
              simp only [Tables.entries, Function.update_of_ne different]
          | array => rfl
          | rbtree => rfl
          | skip => rfl
        · intro entry member gone
          have stepped := (HashRuns.hashStep_represents false
            ⟨valid.hashes name, rfl⟩
            (.delIfExpired item.key item.expireTime, false) trivial).1.2
          have result : contents
              ((tables.operate false 0 (.hash name)
                (.delIfExpired item.key item.expireTime)).1.entries
                  (.hash name)) =
              ((contents (tables.entries (.hash name))).step false
                (.delIfExpired item.key item.expireTime)).1 := by
            simp only [Tables.operate, Tables.entries, Function.update_self]
            exact stepped
          exact removed_time (valid.distinct (.hash name))
            (after.distinct (.hash name)) result member gone
  | skip =>
      have after := valid.operate false 0 .skip
        (.delIfExpired item.key item.expireTime)
      refine ⟨after, removesOnly_at .skip ?_ ?_⟩
      · intro other apart
        cases other <;> first | rfl | exact absurd rfl apart
      · intro entry member gone
        exact removed_time (valid.distinct .skip) (after.distinct .skip)
          (SkipRuns.skipStep_represents false ⟨valid.skip, rfl⟩
            (.delIfExpired item.key item.expireTime, 0)).1.2 member gone

/-! ## One call -/

/-- The entry has expired. -/
def Lapsed (now : Int) (entry : Entry) : Prop :=
  0 < entry.expireTime ∧ entry.expireTime ≤ now

/-- What every step keeps: the tables are consistent, and every timer has a
time and comes back when it is due. -/
structure Sound (clock : Int) (store : Store) : Prop where
  valid : Valid store.tables
  pending : Pending clock store.expire

/-- One iteration removes an expired entry or nothing. -/
theorem expireProcessOne_sound {flags : Flags} {now : Int}
    {globals next : Globals Store} (sound : Sound now globals.store)
    (processed : expireProcessOne flags globals = some next) :
    Sound now next.store ∧
      RemovesOnly (Lapsed now) globals.store.tables next.store.tables := by
  obtain ⟨valid, pending⟩ := sound
  obtain ⟨item, queue, popped, store⟩ := expireProcessOne_store processed
  obtain ⟨due, rest⟩ :=
    queuePop_forall pending.deleteOk popped pending.delete
  obtain ⟨after, removes⟩ := engineDelIfExpired_removes valid item
  rw [store]
  refine ⟨⟨after, pending.cmdOk,
    (queuePop_contents pending.deleteOk popped).1, pending.cmd, pending.heap,
    pending.phase, rest⟩, ?_⟩
  intro table entry member gone
  have same := removes table entry member gone
  rw [Lapsed, same]
  exact due

/-- The loop removes expired entries only. -/
theorem expireProcessLoop_sound {flags : Flags} {now : Int} {left : Nat}
    {globals : Globals Store} (sound : Sound now globals.store) :
    Sound now (expireProcessLoop flags left globals).store ∧
      RemovesOnly (Lapsed now) globals.store.tables
        (expireProcessLoop flags left globals).store.tables := by
  refine @expireProcessLoop_keeps flags
    (fun later => Sound now later.store ∧
      RemovesOnly (Lapsed now) globals.store.tables later.store.tables)
    ?_ left _ ⟨sound, .refl _ _⟩
  rintro between next ⟨sound, first⟩ processed
  obtain ⟨after, second⟩ := expireProcessOne_sound sound processed
  exact ⟨after, first.trans second⟩

/-! ## Runs -/

/-- The globals and the last reading of the clock. -/
structure Machine where
  clock : Int
  globals : Globals Store

/--
What can happen: a command is executed, the thread takes a step, or the loop of
`expire_process_deletes` runs for some iterations.  A whole call is the loop
with 500 iterations; a call during which the thread takes steps is several
pieces of the loop.
-/
inductive Event where
  | command (mem : Bytes) (req : RespRequest) (command : Command)
  | thread (now : Int)
  | process (now : Int) (left : Nat)

/-- One event. -/
def machineStep (flags : Flags) (machine : Machine) :
    Event → Machine × Unit
  | .command mem req command =>
      ({ machine with
          globals := (kvsExecuteBatch flags machine.globals mem req
            (some command)).1 }, ())
  | .thread now =>
      ({ clock := now
         globals :=
          { machine.globals with
            store :=
              { machine.globals.store with
                expire := expireThreadStep now
                  machine.globals.store.expire } } }, ())
  | .process now left =>
      ({ clock := now
         globals := expireProcessLoop flags left machine.globals }, ())

/-- The clock does not run backwards. -/
def Forward (machine : Machine) : Event → Prop
  | .command _ _ _ => True
  | .thread now => machine.clock ≤ now
  | .process now _ => machine.clock ≤ now

/-- A `SET` of a key that is not empty carries an expiry. -/
def Guarded (flags : Flags) (machine : Machine) : Event → Prop
  | .command mem req command =>
      let call := nextCall flags machine.globals mem req
      command.proc = .arraySet → 3 ≤ call.argc → call.arg 1 ≠ [] →
        0 < parseTtl call
  | .thread _ => True
  | .process _ _ => True

/-- The machine at program start. -/
def freshMachine (clock : Int) (worlds : Nat → World) : Machine :=
  { clock := clock
    globals :=
      { store := Store.create worlds
        persisted := []
        repl := ReplState.initial } }

/-- The timers that a handler hands over. -/
theorem Effect.pending {proc : Proc} {call : Call} {before after : Store}
    (effect : Effect proc call before after) {clock : Int}
    (guarded : proc = .arraySet → 3 ≤ call.argc → call.arg 1 ≠ [] →
      0 < parseTtl call)
    (pending : Pending clock before.expire) :
    Pending clock after.expire := by
  rcases effect.expire_cases with
    same | ⟨type, key, time, handed, origin⟩
  · rw [same]
    exact pending
  · rw [handed]
    refine pending.pushCmd _ type ?_
    intro proper
    rcases origin with positive | ⟨setting, enough, rfl, rfl⟩
    · exact positive
    · exact guarded setting enough proper

theorem machineStep_sound {flags : Flags} {machine : Machine} {event : Event}
    (sound : Sound machine.clock machine.globals.store)
    (forward : Forward machine event)
    (guarded : Guarded flags machine event) :
    Sound (machineStep flags machine event).1.clock
      (machineStep flags machine event).1.globals.store := by
  cases event with
  | command mem req command =>
      refine ⟨kvsExecuteBatch_valid sound.valid _ _ _ _, ?_⟩
      exact Effect.pending (Proc.run_effect command.proc
        (nextCall flags machine.globals mem req) (tick machine.globals))
        guarded sound.pending
  | thread now => exact ⟨sound.valid, sound.pending.threadStep forward⟩
  | process now left =>
      have later : Sound now machine.globals.store :=
        ⟨sound.valid, sound.pending.mono forward⟩
      exact (expireProcessLoop_sound later).1

/--
Active expiry removes what has expired and nothing else, in every run in which
every `SET` of a key that is not empty carries an expiry.  After any commands,
any steps of the thread and any calls of `expire_process_deletes` in any order,
on a clock that does not run backwards, the next call, or any piece of it,
removes only entries whose time is positive and has come.
-/
theorem activeExpiry_removes_lapsed {flags : Flags} {clock : Int}
    {worlds : Nat → World} {events : List Event}
    (admissible : Along (machineStep flags)
      (fun machine event => Forward machine event ∧
        Guarded flags machine event)
      (freshMachine clock worlds) events)
    {now : Int}
    (later : (run (machineStep flags) (freshMachine clock worlds)
      events).1.clock ≤ now)
    (left : Nat) :
    RemovesOnly (Lapsed now)
      (run (machineStep flags) (freshMachine clock worlds)
        events).1.globals.store.tables
      (expireProcessLoop flags left
        (run (machineStep flags) (freshMachine clock worlds)
          events).1.globals).store.tables := by
  have sound := @run_invariant _ _ _ (machineStep flags) _
    (fun machine => Sound machine.clock machine.globals.store)
    (fun _ _ sound allowed =>
      machineStep_sound sound allowed.1 allowed.2)
    (freshMachine clock worlds) ⟨valid_create, pending_init clock⟩ _
    admissible
  exact (expireProcessLoop_sound
    ⟨sound.valid, sound.pending.mono later⟩).2

/-- A server with TTL and persistence. -/
def expiryFlags : Flags :=
  { enablePersistence := true
    enableTtl := true
    enableReplMaster := false
    enableReplSlave := false
    useTcpSync := false }

/-- The frame of a `SET` is executed. -/
def setEvent (args : List Bytes) : Event :=
  .command (respEncode args)
    (respUnpackNoModify (respEncode args) 0 (respEncode args).length)
    { name := ascii "SET", proc := .arraySet }

/-- The `SET` is executed, and the thread brings its timer back. -/
def timerRun (args : List Bytes) (now : Int) : List Event :=
  [setEvent args, .thread now, .thread now, .thread now, .thread now,
    .thread now]

/-- The machine after such a run. -/
def timerMachine (args : List Bytes) (now : Int) : Machine :=
  (run (machineStep expiryFlags) (freshMachine 1000 (fun _ => default))
    (timerRun args now)).1

/-- `SET k v 2000000000` names a point in time. -/
def timedSet : List Bytes :=
  [ascii "SET", ascii "k", ascii "v", ascii "2000000000"]

/-- Its entry is removed when its time has come. -/
theorem activeExpiry_removes_lapsed_set :
    (timerMachine timedSet
        2000000001).globals.store.tables.entries .array =
        [{ key := ascii "k"
           value := ascii "v"
           expireTime := 2000000000 }] ∧
      (expireProcessDeletes expiryFlags (timerMachine timedSet
        2000000001).globals).store.tables.entries .array = [] ∧
      RemovesOnly (Lapsed 2000000002)
        (timerMachine timedSet 2000000001).globals.store.tables
        (expireProcessDeletes expiryFlags
          (timerMachine timedSet 2000000001).globals).store.tables := by
  refine ⟨by decide +kernel, by decide +kernel, ?_⟩
  refine activeExpiry_removes_lapsed ?_ (by decide +kernel) 500
  refine ⟨⟨trivial, ?_⟩, ⟨?_, trivial⟩, ⟨?_, trivial⟩, ⟨?_, trivial⟩,
    ⟨?_, trivial⟩, ⟨?_, trivial⟩, trivial⟩
  · intro _ _ _
    decide +kernel
  all_goals
    rw [Forward]
    decide +kernel

/-- `SET k v` carries no expiry. -/
def untimedSet : List Bytes :=
  [ascii "SET", ascii "k", ascii "v"]

/-- Its entry is removed as soon as its timer is back. -/
theorem activeExpiry_removes_untimed :
    lookupCommand (respEncode untimedSet) 8 3 =
        some { name := ascii "SET", proc := .arraySet } ∧
      Along (machineStep expiryFlags) Forward
        (freshMachine 1000 (fun _ => default)) (timerRun untimedSet 1000) ∧
      (timerMachine untimedSet 1000).globals.store.tables.entries .array =
        [{ key := ascii "k", value := ascii "v", expireTime := 0 }] ∧
      (expireProcessDeletes expiryFlags
        (timerMachine untimedSet 1000).globals).store.tables.entries
          .array = [] ∧
      ¬ RemovesOnly (Lapsed 1000)
        (timerMachine untimedSet 1000).globals.store.tables
        (expireProcessDeletes expiryFlags
          (timerMachine untimedSet 1000).globals).store.tables := by
  have before : (timerMachine untimedSet
      1000).globals.store.tables.entries .array =
      [{ key := ascii "k", value := ascii "v", expireTime := 0 }] := by
    decide +kernel
  have after : (expireProcessDeletes expiryFlags
      (timerMachine untimedSet 1000).globals).store.tables.entries .array =
      [] := by
    decide +kernel
  refine ⟨by decide +kernel, ?_, before, after, ?_⟩
  · refine ⟨trivial, ?_, ?_, ?_, ?_, ?_, trivial⟩
    all_goals
      rw [Forward]
      decide +kernel
  · intro removes
    have lapsed := removes .array
      { key := ascii "k", value := ascii "v", expireTime := 0 }
      (by rw [before]; exact List.mem_singleton_self _)
      (by rw [after]; exact List.not_mem_nil)
    exact absurd lapsed.1 (by decide)

end Kivo.Server.ActiveExpiry
