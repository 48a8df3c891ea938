import Kivo.Server.Changes

/-!
# Replaying the commands of a log

The log holds the frames of the write commands, in the order in which they
were served.  A restart replays them into empty tables.  The replay draws
other levels for the skip list and reads another clock, so it cannot rebuild
the very state of the server; this module says in which sense it agrees with
it, and shows that both runs take agreeing tables to agreeing tables.
-/

namespace Kivo.Persistence.Replay

open Kivo.Clib.Memory
open Kivo.Clib.Numeral
open Kivo.Engine
open Kivo.Engine.Data
open Kivo.Engine.KeyMap
open Kivo.Engine.HashEngine
open Kivo.Engine.SkipEngine
open Kivo.Engine.SkipOrder
open Kivo.Engine.HashTable (HashOk entries nodes slotLimit)
open Kivo.Engine.HashRuns (hashStep)
open Kivo.Engine.SkipRuns (Level skipStep skipStep_ordered)
open Kivo.Engine.Store
open Kivo.Resp.Frame
open Kivo.Resp.Canonical
open Kivo.Resp.Reply
open Kivo.Resp.Stream
open Kivo.Server.State
open Kivo.Server.Commands
open Kivo.Server.CommandTable
open Kivo.Server
open Kivo.Server.Requests
open Kivo.Server.Changes

/-! ## Agreement -/

/-- Two skip lists with the same entries. -/
structure SameEntries (live replayed : KvsSkip) : Prop where
  valid : SkipValid live
  rebuilt : SkipValid replayed
  entries : live.entries = replayed.entries

/--
The tables agree: they are the same, except that the skip lists may differ in
their levels and the contexts are related by a relation of their own.
-/
structure Agrees (contexts : KvsHash → KvsHash → Prop)
    (live replayed : Tables) : Prop where
  array : live.array = replayed.array
  rbtree : live.rbtree = replayed.rbtree
  hashes : ∀ name, name ≠ .hash2 → live.hashes name = replayed.hashes name
  contexts : contexts (live.hashes .hash2) (replayed.hashes .hash2)
  skip : SameEntries live.skip replayed.skip

theorem SameEntries.step {live replayed : KvsSkip}
    (same : SameEntries live replayed) (operation : Operation)
    (level other : Level) :
    SameEntries (skipStep false live (operation, level)).1
      (skipStep false replayed (operation, other)).1 := by
  obtain ⟨first, left⟩ :=
    skipStep_ordered same.valid false operation level
  obtain ⟨second, right⟩ :=
    skipStep_ordered same.rebuilt false operation other
  refine ⟨first, second, ?_⟩
  rw [same.entries, ← right] at left
  exact congrArg Prod.fst left

theorem SameEntries.zsetAdd {live replayed : KvsSkip}
    (same : SameEntries live replayed) (timestamp : Int) (id : Bytes)
    (level other : Level) :
    SameEntries (kvsZsetAdd live timestamp id level).1
      (kvsZsetAdd replayed timestamp id other).1 := by
  rw [kvsZsetAdd, kvsZsetAdd]
  split_ifs
  · exact same
  · split
    · exact same
    · rename_i key made
      exact same.step (.set key [] 0) level other

section Agrees

variable {contexts : KvsHash → KvsHash → Prop} {live replayed : Tables}

/-- Changing one hash table on both sides. -/
theorem Agrees.setHash (agrees : Agrees contexts live replayed)
    {name : HashName} {first second : KvsHash}
    (same : name ≠ .hash2 → first = second)
    (related : name = .hash2 → contexts first second) :
    Agrees contexts
      { live with hashes := Function.update live.hashes name first }
      { replayed with
        hashes := Function.update replayed.hashes name second } := by
  refine ⟨agrees.array, agrees.rbtree, ?_, ?_, agrees.skip⟩
  · intro other plain
    dsimp only
    by_cases here : other = name
    · subst here
      rw [Function.update_self, Function.update_self]
      exact same plain
    · rw [Function.update_of_ne here, Function.update_of_ne here]
      exact agrees.hashes other plain
  · dsimp only
    by_cases here : HashName.hash2 = name
    · subst here
      rw [Function.update_self, Function.update_self]
      exact related rfl
    · rw [Function.update_of_ne here, Function.update_of_ne here]
      exact agrees.contexts

/-- The same call on both sides. -/
theorem Agrees.operate (agrees : Agrees contexts live replayed)
    (level other : Level) (table : Table) (operation : Operation)
    (related : table = .hash .hash2 →
      contexts
        (hashStep false (live.hashes .hash2) (operation, false)).1
        (hashStep false (replayed.hashes .hash2) (operation, false)).1) :
    Agrees contexts (live.operate false level table operation).1
      (replayed.operate false other table operation).1 := by
  cases table with
  | array =>
      refine ⟨?_, agrees.rbtree, agrees.hashes, agrees.contexts,
        agrees.skip⟩
      simp only [Tables.operate, agrees.array]
  | rbtree =>
      refine ⟨agrees.array, ?_, agrees.hashes, agrees.contexts,
        agrees.skip⟩
      simp only [Tables.operate, agrees.rbtree]
  | hash name =>
      refine agrees.setHash ?_ ?_
      · intro plain
        rw [agrees.hashes name plain]
      · rintro rfl
        exact related rfl
  | skip =>
      exact ⟨agrees.array, agrees.rbtree, agrees.hashes, agrees.contexts,
        agrees.skip.step operation level other⟩

/-- The same change on both sides. -/
theorem Agrees.apply (agrees : Agrees contexts live replayed)
    (level other : Level) (change : Change)
    (related : ∀ operation, change = .operate (.hash .hash2) operation →
      contexts
        (hashStep false (live.hashes .hash2) (operation, false)).1
        (hashStep false (replayed.hashes .hash2) (operation, false)).1) :
    Agrees contexts (change.apply level live)
      (change.apply other replayed) := by
  cases change with
  | keep => exact agrees
  | operate table operation =>
      refine agrees.operate level other table operation ?_
      rintro rfl
      exact related operation rfl
  | append key id =>
      refine agrees.setHash ?_ nofun
      intro plain
      rw [agrees.hashes .hash4 plain]
  | zadd timestamp id =>
      exact ⟨agrees.array, agrees.rbtree, agrees.hashes, agrees.contexts,
        agrees.skip.zsetAdd timestamp id level other⟩

end Agrees

/-! ## Contexts without their times -/

/-- Two hash tables with the same keys and values. -/
structure SameValues (live replayed : KvsHash) : Prop where
  ok : HashOk live
  rebuilt : HashOk replayed
  values : ∀ key,
    (contents (entries live) key).map Item.value =
      (contents (entries replayed) key).map Item.value

section SameValues

variable {live replayed : KvsHash}

theorem SameValues.size (same : SameValues live replayed) :
    (nodes live).length = (nodes replayed).length := by
  have filled : ∀ key, contents (entries live) key ≠ none ↔
      contents (entries replayed) key ≠ none := by
    intro key
    have value := congrArg Option.isSome (same.values key)
    rw [Option.isSome_map, Option.isSome_map] at value
    rw [← Option.isSome_iff_ne_none, ← Option.isSome_iff_ne_none, value]
  have sizes : (contents (entries live)).size =
      (contents (entries replayed)).size := by
    rw [Contents.size, Contents.size]
    simp only [filled]
  rw [contents_size same.ok.distinct_entries,
    contents_size same.rebuilt.distinct_entries] at sizes
  rw [entries, entries, List.length_map, List.length_map] at sizes
  exact sizes

/-- Setting a key to one value at two times. -/
theorem SameValues.set (same : SameValues live replayed)
    (key value : Bytes) (time other : Int) :
    SameValues (kvsHashSet live key 0 value time).1
      (kvsHashSet replayed key 0 value other).1 := by
  by_cases room : (nodes live).length < slotLimit
  · obtain ⟨first, left, _⟩ := HashTable.kvsHashSet_contents same.ok room
      (Or.inl rfl : HashTable.CacheOk key 0) value time
    obtain ⟨second, right, _⟩ := HashTable.kvsHashSet_contents same.rebuilt
      (by rw [← same.size]; exact room)
      (Or.inl rfl : HashTable.CacheOk key 0) value other
    refine ⟨first, second, ?_⟩
    intro wanted
    rw [left, right, Contents.set, Contents.set]
    split_ifs
    · rfl
    · exact same.values wanted
  · have full : (nodes live).length = slotLimit :=
      Nat.le_antisymm (same.ok.load.trans same.ok.most)
        (Nat.le_of_not_lt room)
    rw [HashTable.kvsHashSet_full same.ok full,
      HashTable.kvsHashSet_full same.rebuilt (by rw [← same.size, full])]
    exact same

/-- Deleting a key on both sides. -/
theorem SameValues.del (same : SameValues live replayed) (key : Bytes) :
    SameValues (kvsHashDel live key 0).1 (kvsHashDel replayed key 0).1 := by
  obtain ⟨first, left, _⟩ := HashTable.kvsHashDel_contents same.ok
    (Or.inl rfl : HashTable.CacheOk key 0)
  obtain ⟨second, right, _⟩ := HashTable.kvsHashDel_contents same.rebuilt
    (Or.inl rfl : HashTable.CacheOk key 0)
  refine ⟨first, second, ?_⟩
  intro wanted
  rw [left, right, Contents.erase, Contents.erase]
  split_ifs
  · rfl
  · exact same.values wanted

end SameValues

/-! ## Runs -/

/--
The tables that a sequence of commands leads to, with some level drawn for
each command and with times that are allowed for it.
-/
inductive Produces (times : List Bytes → Int → Int → Prop) :
    Tables → List (List Bytes) → Tables → Prop where
  | nil (tables : Tables) : Produces times tables [] tables
  | cons {before after : Tables} {args : List Bytes}
      {rest : List (List Bytes)} (expire context : Int) (level : Level)
      (timely : times args expire context)
      (tail : Produces times
        ((commandChange args expire context).apply level before) rest
        after) :
      Produces times before (args :: rest) after

section Produces

variable {times : List Bytes → Int → Int → Prop}

theorem Produces.append {before between after : Tables}
    {first second : List (List Bytes)}
    (early : Produces times before first between)
    (late : Produces times between second after) :
    Produces times before (first ++ second) after := by
  induction early with
  | nil tables => exact late
  | cons expire context level timely tail induction =>
      exact .cons expire context level timely (induction late)

/--
A relation that one command takes to itself, whatever levels and allowed
times it comes with, relates a run to the replay of its log.
-/
theorem Produces.replay {related : Tables → Tables → Prop}
    (step : ∀ {args expire context expire' context' live replayed},
      times args expire context → times args expire' context' →
        related live replayed → ∀ level other,
          related ((commandChange args expire context).apply level live)
            ((commandChange args expire' context').apply other replayed))
    {live final : Tables} {commands : List (List Bytes)}
    (served : Produces times live commands final)
    {replayed rebuilt : Tables}
    (recovered : Produces times replayed (commands.flatMap loggedPart)
      rebuilt)
    (start : related live replayed) :
    related final rebuilt := by
  induction served generalizing replayed with
  | nil tables =>
      cases recovered
      exact start
  | @cons before after args rest expire context level timely tail
      induction =>
      rw [List.flatMap_cons, loggedPart] at recovered
      split_ifs at recovered with logged
      · cases recovered with
        | cons expire' context' other timely' tail' =>
            exact induction tail'
              (step timely timely' start level other)
      · rw [Bool.not_eq_true] at logged
        rw [commandChange_unlogged logged] at induction
        exact induction recovered start

/-- A loop over canonical frames whose body applies the changes of the
frames. -/
theorem runWindows_produces {mem : Bytes} {address : Int}
    {commands : List (List Bytes)}
    (stored : Holds mem address (respStream commands))
    (small : (respStream commands).length < 2 ^ 31)
    {body : Int → Int → Session Store → Session Store}
    (step : ∀ {args}, args ∈ commands → ∀ {address},
      Holds mem address (respEncode args) →
      (respEncode args).length < 2 ^ 31 → ∀ session : Session Store,
      ∃ expire context level, times args expire context ∧
        (body address (respEncode args).length session).globals.store.tables =
          (commandChange args expire context).apply level
            session.globals.store.tables)
    (session : Session Store) :
    Produces times session.globals.store.tables commands
      (runWindows body (frameWindows address commands)
        session).globals.store.tables := by
  induction commands generalizing address session with
  | nil => exact .nil _
  | cons args rest induction =>
      rw [respStream_cons] at stored small
      rw [List.length_append] at small
      obtain ⟨expire, context, level, timely, applied⟩ := step
        List.mem_cons_self stored.left (by omega) session
      refine .cons expire context level timely ?_
      rw [← applied]
      exact induction stored.right (by omega)
        (fun member => step (List.mem_cons_of_mem _ member)) _

end Produces

/-! ## Serving and replaying -/

/-- A call of `protocol_process_stream` on consecutive canonical frames. -/
structure Delivery where
  fd : Int
  mem : Bytes
  inBuf : Int
  wbuf : Option WriteBuffer
  commands : List (List Bytes)

/-- The buffer holds the frames, and an `int` counts their bytes. -/
def Delivery.Canonical (delivery : Delivery) : Prop :=
  Holds delivery.mem delivery.inBuf (respStream delivery.commands) ∧
    (respStream delivery.commands).length < 2 ^ 31

/-- The globals after one call. -/
def serve (flags : Flags) (fuel : Nat) (globals : Globals Store)
    (delivery : Delivery) : Option (Globals Store) :=
  (protocolProcessStream (commandLayer flags) flags delivery.fd fuel
    delivery.mem delivery.inBuf (respStream delivery.commands).length
    { globals := globals
      wbuf := delivery.wbuf
      executed := [] }).map (fun result => result.session.globals)

/-- The globals after a sequence of calls. -/
def serveAll (flags : Flags) (fuel : Nat) (globals : Globals Store)
    (deliveries : List Delivery) : Option (Globals Store) :=
  deliveries.foldlM (serve flags fuel) globals

/-- The globals of a fresh server. -/
def freshGlobals (worlds : Nat → World) : Globals Store :=
  { store := Store.create worlds
    persisted := []
    repl := ReplState.initial }

/-- Whatever it finds outside, a handler of the command computes times that
are allowed. -/
def Timely (flags : Flags) (times : List Bytes → Int → Int → Prop)
    (args : List Bytes) : Prop :=
  ∀ call : Call, call.flags = flags → Arrived call.mem call.req args →
    times args (expireOf call) (contextExpire call)

section Serving

variable {times : List Bytes → Int → Int → Prop} {flags : Flags}
  (logging : flags.logsWrites = true)

include logging

theorem runWindows_persisted {fd : Int} {mem : Bytes} {address : Int}
    {commands : List (List Bytes)}
    (stored : Holds mem address (respStream commands))
    (small : (respStream commands).length < 2 ^ 31)
    (steady : ∀ args ∈ commands, Steady flags args)
    (session : Session Store) :
    (runWindows (serveCommand (commandLayer flags) flags fd mem)
        (frameWindows address commands) session).globals.persisted =
      session.globals.persisted ++
        (commands.flatMap loggedPart).map respEncode := by
  induction commands generalizing address session with
  | nil => exact (List.append_nil _).symm
  | cons args rest induction =>
      rw [respStream_cons] at stored small
      rw [List.length_append] at small
      obtain ⟨_, logged⟩ := serveCommand_change stored.left (by omega) fd
        logging (steady args List.mem_cons_self) session
      have later := induction stored.right (by omega)
        (fun other member => steady other (List.mem_cons_of_mem _ member))
        (serveCommand (commandLayer flags) flags fd mem address
          (respEncode args).length session)
      rw [logged, List.append_assoc, ← List.map_append,
        ← List.flatMap_cons] at later
      exact later

/-- One call. -/
theorem serve_produces {delivery : Delivery} {fuel : Nat}
    (canonical : delivery.Canonical)
    (enough : delivery.commands.length < fuel)
    (steady : ∀ args ∈ delivery.commands, Steady flags args)
    (timely : ∀ args ∈ delivery.commands, Timely flags times args)
    (globals : Globals Store) :
    ∃ next, serve flags fuel globals delivery = some next ∧
      next.persisted = globals.persisted ++
        (delivery.commands.flatMap loggedPart).map respEncode ∧
      Produces times globals.store.tables delivery.commands
        next.store.tables := by
  obtain ⟨stored, small⟩ := canonical
  have logged := @runWindows_persisted flags logging delivery.fd _ _ _ stored
    small steady { globals := globals, wbuf := delivery.wbuf, executed := [] }
  refine ⟨_, ?_, logged, ?_⟩
  · rw [serve, protocolProcessStream_canonical _ flags delivery.fd _ stored
      small enough]
    rfl
  · refine runWindows_produces stored small ?_
      { globals := globals, wbuf := delivery.wbuf, executed := [] }
    intro args member address held fits session
    exact ⟨_, _, _, timely args member
      (callOf flags delivery.mem address args session.globals) rfl
      (arrived_encode held fits),
      (serveCommand_change held fits delivery.fd logging
        (steady args member) session).1⟩

/-- A sequence of calls. -/
theorem serveAll_produces {deliveries : List Delivery} {fuel : Nat}
    (canonical : ∀ delivery ∈ deliveries, delivery.Canonical)
    (enough : ∀ delivery ∈ deliveries, delivery.commands.length < fuel)
    (steady : ∀ args ∈ deliveries.flatMap Delivery.commands,
      Steady flags args)
    (timely : ∀ args ∈ deliveries.flatMap Delivery.commands,
      Timely flags times args)
    (globals : Globals Store) :
    ∃ live, serveAll flags fuel globals deliveries = some live ∧
      live.persisted = globals.persisted ++
        ((deliveries.flatMap Delivery.commands).flatMap loggedPart).map
          respEncode ∧
      Produces times globals.store.tables
        (deliveries.flatMap Delivery.commands) live.store.tables := by
  induction deliveries generalizing globals with
  | nil => exact ⟨globals, rfl, (List.append_nil _).symm, .nil _⟩
  | cons delivery rest induction =>
      have here : ∀ args ∈ delivery.commands,
          args ∈ (delivery :: rest).flatMap Delivery.commands := by
        intro args member
        rw [List.flatMap_cons]
        exact List.mem_append_left _ member
      have there : ∀ args ∈ rest.flatMap Delivery.commands,
          args ∈ (delivery :: rest).flatMap Delivery.commands := by
        intro args member
        rw [List.flatMap_cons]
        exact List.mem_append_right _ member
      obtain ⟨next, served, logged, early⟩ := serve_produces logging
        (canonical delivery List.mem_cons_self)
        (enough delivery List.mem_cons_self)
        (fun args member => steady args (here args member))
        (fun args member => timely args (here args member)) globals
      obtain ⟨live, run, persisted, late⟩ := induction
        (fun other member => canonical other (List.mem_cons_of_mem _ member))
        (fun other member => enough other (List.mem_cons_of_mem _ member))
        (fun args member => steady args (there args member))
        (fun args member => timely args (there args member)) next
      refine ⟨live, ?_, ?_, ?_⟩
      · rw [serveAll, List.foldlM_cons, served]
        exact run
      · rw [persisted, logged, List.flatMap_cons, List.flatMap_append,
          List.map_append, List.append_assoc]
      · rw [List.flatMap_cons]
        exact early.append late

/--
The master lemma of both readings of a replay: serving ends, and every
recovery of the logged bytes ends in tables that are related to the ones that
were served.
-/
theorem replay_related {related : Tables → Tables → Prop}
    (step : ∀ {args expire context expire' context' live replayed},
      times args expire context → times args expire' context' →
        related live replayed → ∀ level other,
          related ((commandChange args expire context).apply level live)
            ((commandChange args expire' context').apply other replayed))
    (start : related Tables.create Tables.create)
    {deliveries : List Delivery} {fuel : Nat}
    (canonical : ∀ delivery ∈ deliveries, delivery.Canonical)
    (enough : ∀ delivery ∈ deliveries, delivery.commands.length < fuel)
    (steady : ∀ args ∈ deliveries.flatMap Delivery.commands,
      Steady flags args)
    (timely : ∀ args ∈ deliveries.flatMap Delivery.commands,
      Timely flags times args)
    (worlds : Nat → World) :
    ∃ live,
      serveAll flags fuel (freshGlobals worlds) deliveries = some live ∧
      ∀ (mem : Bytes) (inBuf : Int) (session : Session Store),
        Holds mem inBuf live.persisted.flatten →
        live.persisted.flatten.length < 2 ^ 31 →
        session.globals.store.tables = Tables.create →
        ∃ fuel' rebuilt,
          protocolProcessRecover (commandLayer flags) fuel' mem inBuf
              live.persisted.flatten.length session =
            some ((live.persisted.flatten.length : Int), rebuilt) ∧
          related live.store.tables rebuilt.globals.store.tables := by
  obtain ⟨live, run, persisted, served⟩ := serveAll_produces logging
    canonical enough steady timely (freshGlobals worlds)
  refine ⟨live, run, ?_⟩
  intro mem inBuf session stored small fresh
  have logged : live.persisted.flatten = respStream
      ((deliveries.flatMap Delivery.commands).flatMap loggedPart) := by
    rw [persisted, respStream]
    rfl
  rw [logged] at stored small ⊢
  refine ⟨_, _, protocolProcessRecover_canonical (commandLayer flags)
    session stored small (Nat.lt_succ_self _), ?_⟩
  refine Produces.replay step served ?_ start
  rw [← fresh]
  refine runWindows_produces stored small ?_ session
  intro args member address held fits session
  obtain ⟨origin, inside, part⟩ := List.mem_flatMap.mp member
  have same : args = origin := by
    rw [loggedPart] at part
    split_ifs at part
    · exact List.mem_singleton.mp part
    · exact absurd part List.not_mem_nil
  subst same
  exact ⟨_, _, _, timely args inside
    (callOf flags mem address args session.globals) rfl
    (arrived_encode held fits),
    replayCommand_tables held fits (steady args inside) session⟩

end Serving

/-! ## The replay without TTL -/

theorem operate_of_unless {misused : Bool} {change : Change} {table : Table}
    {operation : Operation}
    (here : Change.unless misused change = .operate table operation) :
    change = .operate table operation := by
  rw [Change.unless] at here
  split_ifs at here
  exact here

/-- The calls that commands make on the contexts. -/
theorem change_contexts {args : List Bytes} {expire context : Int}
    {proc : Proc} {operation : Operation}
    (here : Proc.change args expire context proc =
      .operate (.hash .hash2) operation) :
    (∃ key value time, operation = .set key value time) ∨
      ∃ key, operation = .del key := by
  cases proc
  case setctx =>
    cases operate_of_unless here
    exact Or.inl ⟨_, _, _, rfl⟩
  case delctx =>
    cases operate_of_unless here
    exact Or.inr ⟨_, rfl⟩
  case zadd => cases operate_of_unless (operate_of_unless here)
  all_goals first | cases here | cases operate_of_unless here

/-- Only `SETCTX` looks at the time of a context. -/
theorem change_other {proc : Proc} (other : proc ≠ .setctx)
    (args : List Bytes) (expire context context' : Int) :
    Proc.change args expire context proc =
      Proc.change args expire context' proc := by
  cases proc <;> first | rfl | exact absurd rfl other

/-- `SETCTX` at two times. -/
theorem Agrees.setctx {live replayed : Tables}
    (agrees : Agrees SameValues live replayed) (args : List Bytes)
    (expire context context' : Int) (level other : Level) :
    Agrees SameValues
      ((Proc.change args expire context .setctx).apply level live)
      ((Proc.change args expire context' .setctx).apply other replayed) := by
  simp only [Proc.change, settingChange, Change.unless]
  split_ifs
  · exact agrees
  · refine agrees.setHash (fun plain => absurd rfl plain) (fun _ => ?_)
    exact agrees.contexts.set _ _ _ _

/-- One command on both sides, without an expiry time of its own. -/
theorem Agrees.command {live replayed : Tables}
    (agrees : Agrees SameValues live replayed) (args : List Bytes)
    (expire context context' : Int) (level other : Level) :
    Agrees SameValues
      ((commandChange args expire context).apply level live)
      ((commandChange args expire context').apply other replayed) := by
  rw [commandChange, commandChange]
  cases commandNamed (args.getD 0 []) with
  | none => exact agrees
  | some command =>
      dsimp only
      by_cases setctx : command.proc = .setctx
      · rw [setctx]
        exact agrees.setctx args expire context context' level other
      · rw [change_other setctx args expire context context']
        refine agrees.apply level other _ ?_
        intro operation here
        rcases change_contexts here with
          ⟨key, value, time, rfl⟩ | ⟨key, rfl⟩
        · exact agrees.contexts.set key value time time
        · exact agrees.contexts.del key

theorem agrees_create : Agrees SameValues Tables.create Tables.create := by
  refine ⟨rfl, rfl, fun _ _ => rfl, ?_, ?_⟩
  · exact ⟨HashTable.hashOk_create, HashTable.hashOk_create, fun _ => rfl⟩
  · exact ⟨skipValid_create, skipValid_create, rfl⟩

/--
Two states of a table hold the same map from keys to values: every key reads
the same without TTL, and the same pairs are stored.
-/
def SameMap (live replayed : Tables) (table : Table) : Prop :=
  (∀ now key,
      live.get false now key table = replayed.get false now key table) ∧
    ∀ key value,
      (∃ time, { key := key, value := value, expireTime := time } ∈
          live.entries table) ↔
        ∃ time, { key := key, value := value, expireTime := time } ∈
          replayed.entries table

theorem SameValues.sameMap {live replayed : KvsHash}
    (same : SameValues live replayed) :
    (∀ now key, (kvsHashGet false now live key 0).2 =
        (kvsHashGet false now replayed key 0).2) ∧
      ∀ key value,
        (∃ time, { key := key, value := value, expireTime := time } ∈
            entries live) ↔
          ∃ time, { key := key, value := value, expireTime := time } ∈
            entries replayed := by
  have stored : ∀ {hash : KvsHash}, HashOk hash → ∀ key value,
      (∃ time, { key := key, value := value, expireTime := time } ∈
          entries hash) ↔
        (contents (entries hash) key).map Item.value = some value := by
    intro hash ok key value
    rw [Option.map_eq_some_iff]
    constructor
    · rintro ⟨time, member⟩
      exact ⟨_, (mem_iff_contents ok.distinct_entries _).mp member, rfl⟩
    · rintro ⟨found, here, rfl⟩
      exact ⟨_, (contents_eq_some_iff ok.distinct_entries).mp here⟩
  have read : ∀ {hash : KvsHash}, HashOk hash → ∀ now key,
      (kvsHashGet false now hash key 0).2 =
        (contents (entries hash) key).map Item.value := by
    intro hash ok now key
    rw [(HashRuns.kvsHashGet_contents ok
      (Or.inl rfl : HashTable.CacheOk key 0) false now).2.2, purge_self]
    cases contents (entries hash) key with
    | none => rfl
    | some found => simp [Expired]
  refine ⟨?_, ?_⟩
  · intro now key
    rw [read same.ok, read same.rebuilt, same.values]
  · intro key value
    rw [stored same.ok, stored same.rebuilt, same.values]

theorem Agrees.sameMap {live replayed : Tables}
    (agrees : Agrees SameValues live replayed) (table : Table) :
    SameMap live replayed table := by
  cases table with
  | array =>
      refine ⟨fun now key => ?_, fun key value => ?_⟩
      · rw [Tables.get, Tables.get, agrees.array]
      · rw [Tables.entries, Tables.entries, agrees.array]
  | rbtree =>
      refine ⟨fun now key => ?_, fun key value => ?_⟩
      · rw [Tables.get, Tables.get, agrees.rbtree]
      · rw [Tables.entries, Tables.entries, agrees.rbtree]
  | hash name =>
      by_cases plain : name = .hash2
      · subst plain
        exact agrees.contexts.sameMap
      · refine ⟨fun now key => ?_, fun key value => ?_⟩
        · rw [Tables.get, Tables.get, agrees.hashes name plain]
        · rw [Tables.entries, Tables.entries, agrees.hashes name plain]
  | skip =>
      refine ⟨fun now key => ?_, fun key value => ?_⟩
      · have left := (kvsSkipGet_lookup agrees.skip.valid false now key).2
        have right := (kvsSkipGet_lookup agrees.skip.rebuilt false now key).2
        rw [agrees.skip.entries, ← right] at left
        exact (Prod.ext_iff.mp left).2
      · rw [Tables.entries, Tables.entries, agrees.skip.entries]

/--
Without TTL the log rebuilds every table.  For all canonical frames that
connections deliver to an empty server, the calls end, and every recovery of
the logged bytes into empty tables ends behind the last frame with the same
map from keys to values in each of the eight tables.
-/
theorem recover_rebuilds_tables {flags : Flags}
    (off : flags.enableTtl = false)
    (persistent : flags.enablePersistence = true)
    {deliveries : List Delivery}
    (canonical : ∀ delivery ∈ deliveries, delivery.Canonical) {fuel : Nat}
    (enough : ∀ delivery ∈ deliveries, delivery.commands.length < fuel)
    (worlds : Nat → World) :
    ∃ live,
      serveAll flags fuel (freshGlobals worlds) deliveries = some live ∧
      ∀ (mem : Bytes) (inBuf : Int) (session : Session Store),
        Holds mem inBuf live.persisted.flatten →
        live.persisted.flatten.length < 2 ^ 31 →
        session.globals.store.tables = Tables.create →
        ∃ fuel' rebuilt,
          protocolProcessRecover (commandLayer flags) fuel' mem inBuf
              live.persisted.flatten.length session =
            some ((live.persisted.flatten.length : Int), rebuilt) ∧
          ∀ table, SameMap live.store.tables
            rebuilt.globals.store.tables table := by
  have logging : flags.logsWrites = true := by
    rw [Flags.logsWrites, persistent]
    rfl
  obtain ⟨live, run, recovers⟩ := @replay_related
    (fun _ expire _ => expire = 0) flags logging (Agrees SameValues)
    (fun none none' agrees level other => by
      subst none none'
      exact agrees.command _ 0 _ _ level other)
    agrees_create deliveries fuel canonical enough (fun _ _ => Or.inl off)
    (fun _ _ call same _ => by
      rw [expireOf, same, off]
      rfl) worlds
  refine ⟨live, run, ?_⟩
  intro mem inBuf session stored small fresh
  obtain ⟨fuel', rebuilt, recovered, agrees⟩ :=
    recovers mem inBuf session stored small fresh
  exact ⟨fuel', rebuilt, recovered, agrees.sameMap⟩

/-- A server with persistence and nothing else. -/
def persistentFlags : Flags :=
  { enablePersistence := true
    enableTtl := false
    enableReplMaster := false
    enableReplSlave := false
    useTcpSync := false }

/-- `SET k v` and `GET k`, delivered together. -/
def setGetDelivery : Delivery :=
  { fd := 7
    mem := respStream
      [[ascii "SET", ascii "k", ascii "v"], [ascii "GET", ascii "k"]]
    inBuf := 0
    wbuf := none
    commands := [[ascii "SET", ascii "k", ascii "v"],
      [ascii "GET", ascii "k"]] }

/-- The log of `SET k v` and `GET k` is the first frame, and its replay holds
the key. -/
theorem recover_rebuilds_tables_set :
    ∃ live,
      serveAll persistentFlags 3 (freshGlobals (fun _ => default))
          [setGetDelivery] = some live ∧
        live.persisted = [respEncode [ascii "SET", ascii "k", ascii "v"]] ∧
        ∃ fuel' rebuilt,
          protocolProcessRecover (commandLayer persistentFlags) fuel'
              (respEncode [ascii "SET", ascii "k", ascii "v"]) 0
              live.persisted.flatten.length
              (Alignment.freshSession (fun _ => default)) =
            some ((live.persisted.flatten.length : Int), rebuilt) ∧
          ∀ table, SameMap live.store.tables
            rebuilt.globals.store.tables table := by
  have canonical : ∀ delivery ∈ [setGetDelivery], delivery.Canonical := by
    intro delivery member
    rw [List.mem_singleton.mp member]
    exact ⟨⟨Int.le_refl 0, List.prefix_rfl⟩, by decide +kernel⟩
  obtain ⟨live, run, recovers⟩ := recover_rebuilds_tables
    (show persistentFlags.enableTtl = false from rfl) rfl canonical
    (show ∀ delivery ∈ [setGetDelivery], delivery.commands.length < 3 by
      decide) (fun _ => default)
  have logged : (serveAll persistentFlags 3
      (freshGlobals (fun _ => default)) [setGetDelivery]).map
        Globals.persisted =
      some [respEncode [ascii "SET", ascii "k", ascii "v"]] := by
    decide +kernel
  rw [run] at logged
  have persisted := Option.some.inj logged
  refine ⟨live, run, persisted, recovers _ 0 _ ?_ ?_ rfl⟩
  · rw [persisted]
    exact ⟨Int.le_refl 0, List.prefix_rfl⟩
  · rw [persisted]
    decide +kernel

end Kivo.Persistence.Replay
