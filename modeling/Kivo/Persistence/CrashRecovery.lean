import Kivo.Net.Clients
import Kivo.Persistence.AofRuns
import Kivo.Persistence.Recovery
import Kivo.Persistence.Replay

/-!
# A crash at any moment

A server recovers its append-only file, serves requests and hands the frames
of the write commands to the double buffer.  A crash keeps what the kernel has
written and possibly the beginning of the write that was on its way, so the
file may end inside a frame.  This module shows that the next recovery rebuilds
the tables which the server had at some earlier moment: those behind a prefix
of the commands, and behind all commands whose frames are complete in the
file.
-/

namespace Kivo.Persistence.CrashRecovery

open Kivo.Clib.Memory
open Kivo.Clib.Simulation
open Kivo.Engine.SkipRuns (Level)
open Kivo.Engine.Store
open Kivo.Resp.Frame
open Kivo.Resp.Canonical
open Kivo.Resp.Stream
open Kivo.Net.Ntyco (Conn PartOf maxRbufferSize respStream_prefix_split)
open Kivo.Net.Clients
open Kivo.Server.State
open Kivo.Server.Commands
open Kivo.Server.CommandTable
open Kivo.Server
open Kivo.Server.Requests
open Kivo.Server.Changes
open Kivo.Server.Alignment (freshSession)
open Kivo.Persistence.Log
open Kivo.Persistence.AofRuns
open Kivo.Persistence.Recovery
open Kivo.Persistence.Replay

/-! ## Two runs of the same commands -/

section Runs

variable {times : List Bytes → Int → Int → Prop}

/-- A run of two lists goes through a state between them. -/
theorem Produces.split {before after : Tables}
    {first second : List (List Bytes)}
    (whole : Produces times before (first ++ second) after) :
    ∃ between, Produces times before first between ∧
      Produces times between second after := by
  induction first generalizing before with
  | nil => exact ⟨before, .nil _, whole⟩
  | cons args rest induction =>
      cases whole with
      | cons expire context level timely tail =>
          obtain ⟨between, early, late⟩ := induction tail
          exact ⟨between, .cons expire context level timely early, late⟩

/-- A relation that one command takes to itself relates two runs of the same
commands. -/
theorem Produces.related {related : Tables → Tables → Prop}
    (step : ∀ {args expire context expire' context' live replayed},
      times args expire context → times args expire' context' →
        related live replayed → ∀ level other,
          related ((commandChange args expire context).apply level live)
            ((commandChange args expire' context').apply other replayed))
    {live final replayed rebuilt : Tables} {commands : List (List Bytes)}
    (first : Produces times live commands final)
    (second : Produces times replayed commands rebuilt)
    (start : related live replayed) :
    related final rebuilt := by
  induction first generalizing replayed with
  | nil tables =>
      cases second
      exact start
  | cons expire context level timely tail induction =>
      cases second with
      | cons expire' context' other timely' tail' =>
          exact induction tail' (step timely timely' start level other)

end Runs

/-- One command without an expiry time keeps the agreement. -/
theorem agrees_step {args : List Bytes} {expire context expire' context' : Int}
    {live replayed : Tables} (none : expire = 0) (none' : expire' = 0)
    (agrees : Agrees SameValues live replayed) (level other : Level) :
    Agrees SameValues
      ((commandChange args expire context).apply level live)
      ((commandChange args expire' context').apply other replayed) := by
  subst none none'
  exact agrees.command args 0 context context' level other

/-! ## The first commands of a run -/

/-- The first logged frames are those of the first commands. -/
theorem exists_take_logged {commands now later : List (List Bytes)}
    (split : commands.flatMap loggedPart = now ++ later) :
    ∃ count, (commands.take count).flatMap loggedPart = now := by
  induction commands generalizing now with
  | nil =>
      obtain ⟨rfl, -⟩ := List.append_eq_nil_iff.mp split.symm
      exact ⟨0, rfl⟩
  | cons args rest induction =>
      cases now with
      | nil => exact ⟨0, rfl⟩
      | cons first others =>
          rw [List.flatMap_cons, loggedPart] at split
          split_ifs at split with written
          · obtain ⟨rfl, tail⟩ := List.cons_eq_cons.mp split
            obtain ⟨count, same⟩ := induction tail
            refine ⟨count + 1, ?_⟩
            rw [List.take_succ_cons, List.flatMap_cons, same, loggedPart,
              if_pos written]
            rfl
          · obtain ⟨count, same⟩ := induction split
            refine ⟨count + 1, ?_⟩
            rw [List.take_succ_cons, List.flatMap_cons, same, loggedPart,
              if_neg written]
            rfl

/-! ## What a crash leaves -/

/-- The file that a crash leaves: everything that was written, and some of
the bytes that were on their way. -/
structure Survives (a : Aof) (disk : Bytes) : Prop where
  written : a.file <+: disk
  submitted : disk <+: a.file ++ inFlight a

/-- A recovered log is in order. -/
theorem buffered_of_recover {κ σ : Type} {layer : CommandLayer κ σ}
    {fuel : Nat} {file : Bytes} {next : Aof} {session final : Session σ}
    (recovered : kvsPersistenceRecover layer fuel (kvsPersistenceInit file)
      session = some (next, final)) :
    Buffered file next := by
  have initial := buffered_init file
  rw [kvsPersistenceRecover] at recovered
  by_cases empty : (kvsPersistenceInit file).file.length = 0
  · rw [if_pos empty] at recovered
    cases recovered
    exact ⟨initial.grown, initial.buffer, initial.room, initial.offset⟩
  · rw [if_neg empty] at recovered
    obtain ⟨result, run, shape⟩ := Option.map_eq_some_iff.mp recovered
    cases shape
    exact ⟨initial.grown, initial.buffer, initial.room, initial.offset⟩

/-- What a crash leaves of a recovered log is the old file and a beginning of
the frames that were handed over. -/
theorem survives_prefix {a b : Aof} {file disk : Bytes}
    {events : List AofEvent} (quiet : Quiet a) (content : a.file = file)
    (buffered : Buffered file a)
    (fits : ∀ frame ∈ writtenFrames events, frame.length ≤ aofBufSize)
    (run : a.run events = some b) (lucks : List Luck)
    (survives : Survives (waiting lucks b) disk) :
    ∃ more, disk = file ++ more ∧
      more <+: (writtenFrames events).flatten := by
  have opened : a.fd ≠ .closed := by
    rw [quiet.opened]
    decide
  obtain ⟨ring, logged, -⟩ := run_logged quiet.ring opened fits run
  have after := run_buffered quiet.ring opened fits buffered run
  obtain ⟨conserves, ordered⟩ := waiting_conserves lucks ring after
  obtain ⟨more, rfl⟩ := ordered.grown.trans survives.written
  refine ⟨more, rfl, ?_⟩
  have total : (waiting lucks b).file ++ inFlight (waiting lucks b) <+:
      file ++ (writtenFrames events).flatten := by
    rw [← content, quiet.ring.file_of_flushed quiet.flushed, ← logged,
      ← conserves.logged, Aof.logged, Aof.pending, ← List.append_assoc]
    exact List.prefix_append _ _
  exact (List.prefix_append_right_inj _).mp (survives.submitted.trans total)

/-! ## Replays without TTL -/

section Replays

variable {flags : Flags} (off : flags.enableTtl = false)

include off

/-- The times of a server without TTL. -/
theorem timely_of_off (args : List Bytes) :
    Timely flags (fun _ expire _ => expire = 0) args := by
  intro call same _
  rw [expireOf, same, off]
  rfl

/-- A replay of complete frames and a torn tail runs the commands of the
frames. -/
theorem recover_produces {commands : List (List Bytes)} {torn : Bytes}
    {a : Aof} (content : a.file = respStream commands ++ torn)
    (short : TornTail torn) (small : a.file.length < 2 ^ 31)
    (session : Session Store) :
    ∃ fuel next rebuilt,
      kvsPersistenceRecover (commandLayer flags) fuel a session =
          some (next, rebuilt) ∧
        Produces (fun _ expire _ => expire = 0)
          session.globals.store.tables commands
          rebuilt.globals.store.tables := by
  have window : toInt32 (a.file.length : Int) =
      ((respStream commands ++ torn).length : Int) := by
    rw [← content]
    exact toInt32_of_range (by omega) (by exact_mod_cast small)
  obtain ⟨next, recovered, -⟩ := kvsPersistenceRecover_runs
    (commandLayer flags) session (content ▸ List.prefix_rfl) short window
    (Nat.lt_succ_self commands.length)
  refine ⟨_, next, _, recovered, ?_⟩
  have stored : Holds a.file 0 (respStream commands) :=
    ⟨Int.le_refl 0, by rw [content]; exact List.prefix_append _ _⟩
  rw [content, List.length_append] at small
  refine runWindows_produces stored (by omega) ?_ session
  intro args member address held fits session
  exact ⟨_, _, _, timely_of_off off args
    (callOf flags _ address args session.globals) rfl
    (arrived_encode held fits),
    replayCommand_tables held fits (Or.inl off) session⟩

end Replays

/-- A replay logs nothing. -/
theorem recover_persisted {flags : Flags} {fuel : Nat} {a next : Aof}
    {session final : Session Store}
    (recovered : kvsPersistenceRecover (commandLayer flags) fuel a session =
      some (next, final)) :
    final.globals.persisted = session.globals.persisted := by
  rw [kvsPersistenceRecover] at recovered
  by_cases empty : a.file.length = 0
  · rw [if_pos empty] at recovered
    cases recovered
    rfl
  · rw [if_neg empty] at recovered
    obtain ⟨result, run, shape⟩ := Option.map_eq_some_iff.mp recovered
    cases shape
    rw [protocolProcessRecover] at run
    split_ifs at run with nothing
    · cases run
      rfl
    · obtain ⟨_, _, kept⟩ := @frameLoop_related _ Unit
        (recoverCommand (commandLayer flags) a.file) (fun _ _ => some)
        (fun state _ => state.globals.persisted = session.globals.persisted)
        a.file 0 (toInt32 a.file.length)
        (fun same done => ⟨(), rfl, by
          rw [← replayCommand_of_recoverCommand done]
          exact (kvsExecuteBatch_persisted _ _ _ _ _).trans same⟩)
        fuel 0 session () rfl result run
      exact kept

/-- Complete frames in front of a torn one are among the frames that are
replayed. -/
theorem frames_kept {now later others : List (List Bytes)} {torn : Bytes}
    (part : PartOf later torn) {kept : List Bytes}
    (listed : kept <+: (now ++ later ++ others).map respEncode)
    (inside : kept.flatten <+: respStream now ++ torn) :
    kept <+: now.map respEncode := by
  rw [List.append_assoc, List.map_append] at listed
  rcases List.prefix_or_prefix_of_prefix listed
    (List.prefix_append (now.map respEncode) _) with kept | ⟨extra, rfl⟩
  · exact kept
  · rw [List.prefix_append_right_inj] at listed
    rw [List.flatten_append, respStream, List.prefix_append_right_inj]
      at inside
    cases extra with
    | nil => rw [List.append_nil]
    | cons frame rest =>
        have begun : frame <+: torn :=
          (List.prefix_append _ _).trans inside
        obtain ⟨args, shape⟩ : ∃ args, frame = respEncode args := by
          obtain ⟨args, -, same⟩ := List.mem_map.mp
            (listed.subset List.mem_cons_self)
          exact ⟨args, same.symm⟩
        have minimum := respEncode_length_ge args
        have limit := begun.length_le
        rw [shape] at limit
        rcases part with rfl | ⟨args', more, rfl, initial, proper⟩
        · rw [List.length_nil] at limit
          omega
        · rw [List.cons_append, List.map_cons] at listed
          obtain ⟨rfl, -⟩ := List.cons_prefix_cons.mp listed
          exact absurd (List.IsPrefix.eq_of_length initial
            (Nat.le_antisymm initial.length_le begun.length_le)) proper

/-! ## The crash -/

section Crash

variable {flags : Flags} {old : List (List Bytes)} {boot : Nat}
  {first session : Session Store} {start : Aof}

/--
What a crash leaves of a log is the log behind some first commands and at most
the beginning of one more frame, and a replay of it ends in tables that agree
with every run of these commands.
-/
theorem crash_replays (off : flags.enableTtl = false)
    (created : first.globals.store.tables = Tables.create)
    (recovered : kvsPersistenceRecover (commandLayer flags) boot
      (kvsPersistenceInit (respStream old)) first = some (start, session))
    {commands : List (List Bytes)} {events : List AofEvent} {a : Aof}
    {disk : Bytes}
    (handed : writtenFrames events <+:
      (commands.flatMap loggedPart).map respEncode)
    (fits : ∀ frame ∈ writtenFrames events, frame.length ≤ aofBufSize)
    (run : start.run events = some a) (lucks : List Luck)
    (survives : Survives (waiting lucks a) disk)
    (small : disk.length < 2 ^ 31) :
    ∃ count torn,
      TornTail torn ∧
        disk = respStream old ++
          respStream ((commands.take count).flatMap loggedPart) ++ torn ∧
        (∀ kept, kept <+: (commands.flatMap loggedPart).map respEncode →
          respStream old ++ kept.flatten <+: (waiting lucks a).file →
          kept <+:
            ((commands.take count).flatMap loggedPart).map respEncode) ∧
        ∀ (fresh : Session Store) (early : Tables),
          fresh.globals.store.tables = Tables.create →
          Produces (fun _ expire _ => expire = 0)
            session.globals.store.tables (commands.take count) early →
          ∃ again next rebuilt,
            kvsPersistenceRecover (commandLayer flags) again
                (kvsPersistenceInit disk) fresh = some (next, rebuilt) ∧
              ∀ table, SameMap early rebuilt.globals.store.tables table := by
  obtain ⟨quiet, content⟩ := quiet_of_recover recovered
  obtain ⟨more, split, written⟩ := survives_prefix quiet content
    (buffered_of_recover recovered) fits run lucks survives
  obtain ⟨rest, parts⟩ := handed
  obtain ⟨given, others, logged, frames, -⟩ :=
    List.map_eq_append_iff.mp parts.symm
  rw [← frames] at written fits
  obtain ⟨now, later, torn, rfl, rfl, part⟩ :=
    respStream_prefix_split (show more <+: respStream given from written)
  have short : TornTail torn := by
    refine part.tornTail ?_
    intro frame member
    have limit := fits (respEncode frame)
      (List.mem_map_of_mem (List.mem_append_right _ member))
    rw [aofBufSize] at limit
    omega
  have cut := logged
  rw [List.append_assoc] at cut
  obtain ⟨count, taken⟩ := exists_take_logged cut
  refine ⟨count, torn, short, ?_, ?_, ?_⟩
  · rw [taken, split, List.append_assoc]
  · intro kept listed inside
    rw [logged] at listed
    have reached := inside.trans survives.written
    rw [split, List.prefix_append_right_inj] at reached
    rw [taken]
    exact frames_kept part listed reached
  · have whole : disk = respStream (old ++ now) ++ torn := by
      rw [split, respStream_append, List.append_assoc]
    obtain ⟨_, _, replayed, restarted, before⟩ := recover_produces off
      (show (kvsPersistenceInit (respStream old)).file =
        respStream old ++ [] from (List.append_nil _).symm) (Or.inl rfl)
      (show (respStream old).length < 2 ^ 31 by
        rw [split, List.length_append] at small
        omega) first
    cases kvsPersistenceRecover_unique recovered restarted
    intro fresh early fresh' produced
    obtain ⟨again, next, rebuilt, ended, after⟩ :=
      recover_produces off (show (kvsPersistenceInit disk).file =
        respStream (old ++ now) ++ torn from whole) short small fresh
    refine ⟨again, next, rebuilt, ended, ?_⟩
    rw [created] at before
    rw [fresh'] at after
    obtain ⟨between, earlier, later⟩ := Produces.split after
    have start := Produces.related agrees_step before earlier agrees_create
    rw [← taken] at later
    exact (Produces.replay agrees_step produced later start).sameMap

end Crash

/-! ## Clients, a log and a crash -/

/-- A change by another coroutine that touches neither the tables nor the
log. -/
def Apart (change : Globals Store → Globals Store) : Prop :=
  ∀ globals, (change globals).store.tables = globals.store.tables ∧
    (change globals).persisted = globals.persisted

section Clients

variable {ι : Type} {flags : Flags} {fds : ι → Int}

/-- The arguments of a command in a sequential history. -/
def argsIn (order : List (Turn Store ι)) : List (List Bytes) :=
  order.filterMap
    (fun turn =>
      match turn with
      | .command _ _ _ args => some args
      | .other _ => none)

/-- What the commands of a sequential history do to the tables. -/
theorem order_tables (off : flags.enableTtl = false)
    {order : List (Turn Store ι)} (stored : ∀ turn ∈ order, turn.Stored)
    (apart : ∀ change ∈ order.filterMap Turn.change, Apart change)
    (globals : Globals Store) :
    Produces (fun _ expire _ => expire = 0) globals.store.tables
      (argsIn order)
      (run (serveTurn (commandLayer flags) flags fds) globals
        order).1.store.tables := by
  induction order generalizing globals with
  | nil => exact .nil _
  | cons turn rest induction =>
      have later := induction
        (fun other member => stored other (List.mem_cons_of_mem _ member))
      cases turn with
      | command client mem address args =>
          obtain ⟨held, fits⟩ := stored _ List.mem_cons_self
          have produced := later apart
            (serveCommand (commandLayer flags) flags (fds client) mem
              address (respEncode args).length (single globals)).globals
          rw [serveCommand_tables held fits (fds client) (Or.inl off)
            (single globals)] at produced
          exact .cons _ _ _
            (timely_of_off off args
              (callOf flags mem address args (single globals).globals) rfl
              (arrived_encode held fits)) produced
      | other change =>
          have produced := later
            (fun other member => apart other (List.mem_cons_of_mem _ member))
            (change globals)
          rw [(apart change List.mem_cons_self globals).1] at produced
          exact produced

/-- What the commands of a sequential history log and do to the tables. -/
theorem order_produces (off : flags.enableTtl = false)
    (logging : flags.logsWrites = true) {order : List (Turn Store ι)}
    (stored : ∀ turn ∈ order, turn.Stored)
    (apart : ∀ change ∈ order.filterMap Turn.change, Apart change)
    (globals : Globals Store) :
    (run (serveTurn (commandLayer flags) flags fds) globals
        order).1.persisted =
        globals.persisted ++
          ((argsIn order).flatMap loggedPart).map respEncode ∧
      Produces (fun _ expire _ => expire = 0) globals.store.tables
        (argsIn order)
        (run (serveTurn (commandLayer flags) flags fds) globals
          order).1.store.tables := by
  refine ⟨?_, order_tables off stored apart globals⟩
  induction order generalizing globals with
  | nil => exact (List.append_nil _).symm
  | cons turn rest induction =>
      have later := induction
        (fun other member => stored other (List.mem_cons_of_mem _ member))
      cases turn with
      | command client mem address args =>
          obtain ⟨held, fits⟩ := stored _ List.mem_cons_self
          have logged := (serveCommand_change held fits (fds client)
            logging (Or.inl off) (single globals)).2
          have persisted := later apart
            (serveCommand (commandLayer flags) flags (fds client) mem
              address (respEncode args).length (single globals)).globals
          refine persisted.trans ?_
          rw [logged, List.append_assoc, ← List.map_append,
            ← List.flatMap_cons]
          rfl
      | other change =>
          have persisted := later
            (fun other member => apart other (List.mem_cons_of_mem _ member))
            (change globals)
          rw [(apart change List.mem_cons_self globals).2] at persisted
          exact persisted

/-- Every command of a history comes from a client. -/
theorem exists_argsOf [DecidableEq ι] {order : List (Turn Store ι)} {args : List Bytes}
    (member : args ∈ argsIn order) :
    ∃ client, args ∈ order.filterMap (Turn.argsOf client) := by
  obtain ⟨turn, there, own⟩ := List.mem_filterMap.mp member
  cases turn with
  | command sender mem address args' =>
      refine ⟨sender, List.mem_filterMap.mpr ⟨_, there, ?_⟩⟩
      rw [Turn.argsOf, if_pos rfl]
      exact own
  | other change => cases own

theorem loggedPart_of_mem {commands : List (List Bytes)} {args : List Bytes}
    (member : args ∈ commands.flatMap loggedPart) :
    args ∈ commands ∧ isWriteName (args.getD 0 []) = true := by
  obtain ⟨other, there, inside⟩ := List.mem_flatMap.mp member
  rw [loggedPart] at inside
  split_ifs at inside with write
  · rw [List.mem_singleton.mp inside]
    exact ⟨there, write⟩
  · exact absurd inside List.not_mem_nil

/-- The first commands of a history are those of its first entries. -/
theorem exists_take_argsIn (order : List (Turn Store ι)) (count : Nat) :
    ∃ size, argsIn (order.take size) = (argsIn order).take count := by
  induction order generalizing count with
  | nil => exact ⟨0, (List.take_nil).symm⟩
  | cons turn rest induction =>
      cases turn with
      | command client mem address args =>
          cases count with
          | zero => exact ⟨0, rfl⟩
          | succ count =>
              obtain ⟨size, same⟩ := induction count
              exact ⟨size + 1, congrArg (args :: ·) same⟩
      | other change =>
          obtain ⟨size, same⟩ := induction count
          exact ⟨size + 1, same⟩

/--
A crash loses the end of the history and nothing else.  A process recovers a
log of complete frames and serves any number of clients, whose streams arrive
in pieces of any size and in any order, while the frames of the write commands
go through the double buffer, which swaps, submits and completes in any order.
The server is explained by a sequential history of the commands.  Whatever a
crash leaves of the log at whatever moment, it is the log behind the first
entries of that history followed by at most the beginning of one more frame;
no frame that was written completely is missing; and the next recovery
rebuilds the tables that the server had behind these entries.
-/
theorem clients_crash_recovers [DecidableEq ι] {old : List (List Bytes)}
    {boot : Nat} {first session : Session Store} {start : Aof}
    (off : flags.enableTtl = false)
    (persistent : flags.enablePersistence = true)
    (created : first.globals.store.tables = Tables.create)
    (empty : first.globals.persisted = [])
    (recovered : kvsPersistenceRecover (commandLayer flags) boot
      (kvsPersistenceInit (respStream old)) first = some (start, session))
    {commands : ι → List (List Bytes)}
    (sizes : ∀ client, ∀ frame ∈ commands client,
      ((respEncode frame).length : Int) ≤ maxRbufferSize)
    (fresh : ι → Nat → UInt8) {idle server : Server Store ι}
    (globals : idle.globals = session.globals)
    (begun : ∀ client, ∃ session : Session Store, Opened session ∧
      idle.conns client = Conn.initial (fresh client) session)
    {events : List (Event Store ι)}
    (traced : Traced (Moves (commandLayer flags) flags fds) idle events
      server)
    (initial : ∀ client, bytesOf client events <+:
      respStream (commands client))
    (apart : ∀ change ∈ events.filterMap Event.change, Apart change)
    {log : List AofEvent} {a : Aof} {disk : Bytes}
    (handed : writtenFrames log <+: server.globals.persisted)
    (logged : start.run log = some a) (lucks : List Luck)
    (survives : Survives (waiting lucks a) disk)
    (small : disk.length < 2 ^ 31) :
    ∃ order count torn,
      Serialized (commandLayer flags) flags fds commands idle events server
          order ∧
        TornTail torn ∧
        disk = respStream old ++
          (run (serveTurn (commandLayer flags) flags fds) idle.globals
            (order.take count)).1.persisted.flatten ++ torn ∧
        (∀ kept, kept <+: server.globals.persisted →
          respStream old ++ kept.flatten <+: (waiting lucks a).file →
          kept <+:
            (run (serveTurn (commandLayer flags) flags fds) idle.globals
              (order.take count)).1.persisted) ∧
        ∀ fresh : Session Store,
          fresh.globals.store.tables = Tables.create →
          ∃ again next rebuilt,
            kvsPersistenceRecover (commandLayer flags) again
                (kvsPersistenceInit disk) fresh = some (next, rebuilt) ∧
              ∀ table, SameMap
                (run (serveTurn (commandLayer flags) flags fds) idle.globals
                  (order.take count)).1.store.tables
                rebuilt.globals.store.tables table := by
  have logging : flags.logsWrites = true := by
    rw [Flags.logsWrites, persistent]
    rfl
  obtain ⟨order, explained⟩ := (serialized_start fresh begun).run sizes traced
    initial
  rw [List.nil_append, List.nil_append] at explained
  rw [← explained.others] at apart
  have nothing : idle.globals.persisted = [] := by
    rw [globals, recover_persisted recovered, empty]
  obtain ⟨persisted, -⟩ := order_produces off logging explained.stored apart
    idle.globals
  rw [explained.globals, nothing, List.nil_append] at persisted
  rw [persisted] at handed
  have fits : ∀ frame ∈ writtenFrames log, frame.length ≤ aofBufSize := by
    intro frame member
    obtain ⟨args, there, rfl⟩ := List.mem_map.mp (handed.subset member)
    obtain ⟨client, own⟩ := exists_argsOf (loggedPart_of_mem there).1
    have limit := sizes client args (explained.mem_commands own)
    simp only [maxRbufferSize] at limit
    simp only [aofBufSize]
    omega
  obtain ⟨count, torn, short, split, complete, replays⟩ :=
    crash_replays off created recovered handed fits logged lucks survives
      small
  obtain ⟨size, taken⟩ := exists_take_argsIn order count
  obtain ⟨early, produced⟩ := order_produces off logging
    (fun turn member => explained.stored turn (List.mem_of_mem_take member))
    (fun change member => apart change
      ((List.take_sublist size order).filterMap _ |>.subset member))
    idle.globals
  rw [taken, nothing, List.nil_append] at early
  rw [taken, globals] at produced
  refine ⟨order, size, torn, explained, short, ?_, ?_, ?_⟩
  · rw [early]
    exact split
  · rw [early, persisted]
    exact complete
  · intro fresh' created'
    rw [globals]
    exact replays fresh' _ created' produced

end Clients

/-- The frame of `SET k v`. -/
def setFrame : Bytes :=
  respEncode [ascii "SET", ascii "k", ascii "v"]

/-- The commands of a single client. -/
def setCommands (_ : Unit) : List (List Bytes) :=
  [[ascii "SET", ascii "k", ascii "v"]]

/-- A fresh server with one connection. -/
def idleServer : Server Store Unit :=
  { globals := (freshSession (fun _ => default)).globals
    conns := fun _ => Conn.initial (fun _ => 0)
      (freshSession (fun _ => default)) }

theorem setCommands_sizes (client : Unit) : ∀ frame ∈ setCommands client,
    ((respEncode frame).length : Int) ≤ maxRbufferSize := by
  intro frame member
  rw [List.mem_singleton.mp member]
  decide +kernel

theorem freshSession_opened (worlds : Nat → World) :
    Opened (freshSession worlds) := by
  refine ⟨rfl, ?_⟩
  intro wbuf there
  cases there
  exact ⟨⟨rfl, le_rfl, by decide, rfl⟩, rfl⟩

theorem idleServer_begun (client : Unit) : ∃ session : Session Store,
    Opened session ∧
      idleServer.conns client = Conn.initial (fun _ => 0) session :=
  ⟨freshSession (fun _ => default), freshSession_opened _, rfl⟩

theorem setFrame_sent (client : Unit) : bytesOf client
    ([.received () setFrame] : List (Event Store Unit)) =
      respStream (setCommands client) := by
  revert client
  decide +kernel

/-- A server logs the frame of a client. -/
theorem exists_served {flags : Flags}
    (ran : (idleServer.receive (commandLayer flags) flags (fun _ => 7) 3 ()
      setFrame).map (fun server => server.globals.persisted) =
        some [setFrame]) :
    ∃ server,
      Moves (commandLayer flags) flags (fun _ => 7) idleServer
          (.received () setFrame) server ∧
        server.globals.persisted = [setFrame] := by
  obtain ⟨server, received, persisted⟩ := Option.map_eq_some_iff.mp ran
  exact ⟨server, Server.receive_moves received, persisted⟩

/-- The log after the frame has been submitted. -/
def submittedLog : Aof :=
  { kvsPersistenceInit [] with
    flush := setFrame
    busy := true
    offset := setFrame.length
    lastFlushMs := 9
    submitted := some setFrame }

/-- A crash inside the first write leaves half a frame, and the recovery finds
the tables behind the first entries of the history. -/
theorem clients_crash_recovers_torn :
    ∃ server order count torn,
      Serialized (commandLayer persistentFlags) persistentFlags (fun _ => 7)
          setCommands idleServer [.received () setFrame] server order ∧
        setFrame.take 12 = (run (serveTurn (commandLayer persistentFlags)
          persistentFlags (fun _ => 7)) idleServer.globals
            (order.take count)).1.persisted.flatten ++ torn ∧
        ∃ again next rebuilt,
          kvsPersistenceRecover (commandLayer persistentFlags) again
              (kvsPersistenceInit (setFrame.take 12))
              (freshSession (fun _ => default)) = some (next, rebuilt) ∧
            ∀ table, SameMap
              (run (serveTurn (commandLayer persistentFlags) persistentFlags
                (fun _ => 7)) idleServer.globals
                  (order.take count)).1.store.tables
              rebuilt.globals.store.tables table := by
  obtain ⟨server, moved, frames⟩ := @exists_served persistentFlags
    (by decide +kernel)
  obtain ⟨order, count, torn, history, -, disk, -, recovers⟩ :=
    clients_crash_recovers rfl rfl rfl rfl
      (show kvsPersistenceRecover (commandLayer persistentFlags) 0
        (kvsPersistenceInit (respStream []))
          (freshSession (fun _ => default)) =
        some (kvsPersistenceInit [], freshSession (fun _ => default)) from rfl)
      setCommands_sizes (fun _ _ => 0) rfl idleServer_begun
      (.cons moved .nil) (fun client => setFrame_sent client ▸ List.prefix_rfl)
      (by simp [Event.change])
      (show writtenFrames [.write [] setFrame, .forceFlush true true 9] <+:
          server.globals.persisted from by
        rw [frames]
        exact List.prefix_rfl)
      (show (kvsPersistenceInit []).run
          [.write [] setFrame, .forceFlush true true 9] = some submittedLog by
        decide +kernel) []
      (show Survives submittedLog (setFrame.take 12) from
        ⟨List.nil_prefix, List.take_prefix _ _⟩) (by decide +kernel)
  exact ⟨server, order, count, torn, history, disk,
    recovers (freshSession (fun _ => default)) rfl⟩

end Kivo.Persistence.CrashRecovery
