import Kivo.Relay.Filter
import Kivo.Repl.Replica

/-!
# A slave behind the relay

The relay copies what the one client of the master sends, and hands it to the
slave, which serves the relay like any other client.  Master and slave do not
talk to each other: the same stream reaches them on two ways, each of them cuts
it in its own manner, and either may be ahead.

This module follows the stream from the wire to the tables of both.  If they
have recovered the same log, the tables of the one that is behind are tables
that the other one has gone through; and when everything has arrived, both have
carried out all commands and hold the same.
-/

namespace Kivo.Relay.Mirror

open Kivo.Clib.Memory
open Kivo.Clib.Simulation
open Kivo.Engine.Store
open Kivo.Resp.Frame
open Kivo.Resp.Stream
open Kivo.Net.Ntyco (Conn PartOf ServedPrefix maxRbufferSize)
open Kivo.Net.Clients
open Kivo.Server.State
open Kivo.Server.Commands
open Kivo.Server.CommandTable
open Kivo.Server.Requests (isWriteName)
open Kivo.Server.Changes
open Kivo.Server.Alignment (freshSession)
open Kivo.Persistence.Log
open Kivo.Persistence.Recovery
open Kivo.Persistence.Replay
open Kivo.Persistence.CrashRecovery
open Kivo.Repl.Replica
open Kivo.Relay.Ring
open Kivo.Relay.Reassembly
open Kivo.Relay.Filter hiding Event

/-! ## One end -/

section Ends

variable {ι : Type} [DecidableEq ι]

/-- A server starts from empty tables and a log of complete frames. -/
structure Recovers (flags : Flags) (old : List (List Bytes))
    (idle : Server Store ι) : Prop where
  small : (respStream old).length < 2 ^ 31
  recovered : ∃ (fuel : Nat) (first session : Session Store) (start : Aof),
    first.globals.store.tables = Tables.create ∧
      kvsPersistenceRecover (commandLayer flags) fuel
        (kvsPersistenceInit (respStream old)) first = some (start, session) ∧
      idle.globals = session.globals

/-- All clients but one only read. -/
def OneWriter (writer : ι) (commands : ι → List (List Bytes)) : Prop :=
  ∀ client, client ≠ writer →
    ∀ args ∈ commands client, isWriteName (args.getD 0 []) = false

variable {flags : Flags} {fds : ι → Int} {old : List (List Bytes)}
  {idle server : Server Store ι} {events : List (Event Store ι)}
  {commands : ι → List (List Bytes)} {writer : ι} {order : List (Turn Store ι)}

omit [DecidableEq ι] in
/-- The tables of a recovered server are those of its log. -/
theorem Recovers.produces (off : flags.enableTtl = false)
    (recovers : Recovers flags old idle) :
    Produces (fun _ expire _ => expire = 0) Tables.create old
      idle.globals.store.tables := by
  obtain ⟨small, fuel, first, session, start, created, recovered, globals⟩ :=
    recovers
  obtain ⟨_, _, _, recovered', produced⟩ := recover_produces off
    (show (kvsPersistenceInit (respStream old)).file = respStream old ++ []
      from (List.append_nil _).symm) (Or.inl rfl) small first
  cases kvsPersistenceRecover_unique recovered recovered'
  rw [created, ← globals] at produced
  exact produced

/-- Behind every part of a history the tables are those of the log and of the
writer's commands in that part. -/
theorem front_produces (off : flags.enableTtl = false)
    (recovers : Recovers flags old idle)
    (serves : Serves flags fds idle events server)
    (explained : Serialized (commandLayer flags) flags fds commands idle
      events server order) (only : OneWriter writer commands)
    {front : List (Turn Store ι)} (shorter : front <+: order) :
    ∃ ran,
      ran.flatMap loggedPart =
        (old ++ front.filterMap (Turn.argsOf writer)).flatMap loggedPart ∧
      Produces (fun _ expire _ => expire = 0) Tables.create ran
        (run (serveTurn (commandLayer flags) flags fds) idle.globals
          front).1.store.tables := by
  have produced := @order_tables ι flags fds off front
    (fun turn member => explained.stored turn (shorter.subset member))
    (fun change member => serves.apart change
      (explained.others ▸ (shorter.filterMap _).subset member))
    idle.globals
  refine ⟨old ++ argsIn front, ?_, (recovers.produces off).append produced⟩
  rw [List.flatMap_append, List.flatMap_append]
  congr 1
  apply argsIn_logged
  intro client other args member
  exact only client other args
    (explained.mem_commands ((shorter.filterMap _).subset member))

/-- Some front part of a history holds just the first commands of a client. -/
theorem exists_front
    (explained : Serialized (commandLayer flags) flags fds commands idle
      events server order) {first : List (List Bytes)} {client : ι}
    (initial : first <+: (server.conns client).session.executed) :
    ∃ front, front <+: order ∧
      front.filterMap (Turn.argsOf client) = first := by
  rw [← explained.commands client] at initial
  obtain ⟨front, shorter, same⟩ := List.prefix_filterMap_iff.mp initial
  exact ⟨front, shorter, same.symm⟩

end Ends

/-! ## Both ends -/

section Mirrors

variable {ι κ : Type} [DecidableEq ι] [DecidableEq κ] {flags flags' : Flags}
  {fds : ι → Int} {fds' : κ → Int} {old : List (List Bytes)}
  {idle server : Server Store ι} {idle' replica : Server Store κ}
  {events : List (Event Store ι)} {events' : List (Event Store κ)}
  {commands : ι → List (List Bytes)} {commands' : κ → List (List Bytes)}
  {writer : ι} {link : κ} {order front : List (Turn Store ι)}
  {order' front' : List (Turn Store κ)}

/-- Two servers whose writers have come equally far hold the same. -/
theorem fronts_agree (off : flags.enableTtl = false)
    (off' : flags'.enableTtl = false) (recovers : Recovers flags old idle)
    (recovers' : Recovers flags' old idle')
    (serves : Serves flags fds idle events server)
    (serves' : Serves flags' fds' idle' events' replica)
    (explained : Serialized (commandLayer flags) flags fds commands idle
      events server order)
    (explained' : Serialized (commandLayer flags') flags' fds' commands' idle'
      events' replica order')
    (only : OneWriter writer commands) (only' : OneWriter link commands')
    (shorter : front <+: order) (shorter' : front' <+: order')
    (same : front.filterMap (Turn.argsOf writer) =
      front'.filterMap (Turn.argsOf link)) (table : Table) :
    SameMap
      (run (serveTurn (commandLayer flags) flags fds) idle.globals
        front).1.store.tables
      (run (serveTurn (commandLayer flags') flags' fds') idle'.globals
        front').1.store.tables table := by
  obtain ⟨ran, logged, produced⟩ :=
    front_produces off recovers serves explained only shorter
  obtain ⟨ran', logged', produced'⟩ :=
    front_produces off' recovers' serves' explained' only' shorter'
  exact sameMap_of_logged produced produced'
    (by rw [logged, logged', same]) table

/-- Two servers whose writers have come to the end hold the same. -/
theorem ends_agree (off : flags.enableTtl = false)
    (off' : flags'.enableTtl = false) (recovers : Recovers flags old idle)
    (recovers' : Recovers flags' old idle')
    (serves : Serves flags fds idle events server)
    (serves' : Serves flags' fds' idle' events' replica)
    (explained : Serialized (commandLayer flags) flags fds commands idle
      events server order)
    (explained' : Serialized (commandLayer flags') flags' fds' commands' idle'
      events' replica order')
    (only : OneWriter writer commands) (only' : OneWriter link commands')
    (same : (server.conns writer).session.executed =
      (replica.conns link).session.executed) (table : Table) :
    SameMap server.globals.store.tables replica.globals.store.tables
      table := by
  have agree := fronts_agree off off' recovers recovers' serves serves'
    explained explained' only only' List.prefix_rfl List.prefix_rfl
    (by rw [explained.commands, explained'.commands, same]) table
  rwa [explained.globals, explained'.globals] at agree

end Mirrors

/-! ## The relay between them -/

section Relays

variable {ι : Type} {clients : ι → Client} {writer : ι}
  {malloc : Nat → Option (Nat → UInt8)} {buf : Nat → UInt8}
  {traffic : List (Traffic ι)} {commands : List (List Bytes)}

theorem stream_spoken
    (spoken : (clients writer).commands = commands.map respEncode) :
    (clients writer).stream = respStream commands := by
  rw [Client.stream, spoken, respStream]

/-- What the relay has sent is a front part of the commands. -/
theorem sent_commands
    (spoken : (clients writer).commands = commands.map respEncode)
    (grants : ∀ size, malloc size ≠ none) (carried : Carried clients traffic)
    (undisturbed : Undisturbed clients writer malloc buf traffic) :
    (watched malloc buf traffic).2.flatten <+: respStream commands := by
  have written := watched_written grants carried undisturbed
  rw [stream_spoken spoken] at written
  exact (List.prefix_append _ _).trans written

/-- A relay that has seen all commands and holds back nothing has sent all
of them. -/
theorem sent_complete
    (spoken : (clients writer).commands = commands.map respEncode)
    (grants : ∀ size, malloc size ≠ none) (carried : Carried clients traffic)
    (undisturbed : Undisturbed clients writer malloc buf traffic)
    (passed : ∀ place < (respStream commands).length, ∃ segment frame,
      .packet writer segment frame ∈ traffic ∧ segment.Has place)
    (drained : (watched malloc buf traffic).1.rb.contents = []) :
    (watched malloc buf traffic).2.flatten = respStream commands := by
  have written : writtenBy (watched malloc buf traffic) =
      (clients writer).stream := by
    apply watched_complete grants carried undisturbed
    intro place below
    rw [stream_spoken spoken] at below
    obtain ⟨segment, frame, member, has⟩ := passed place below
    refine ⟨segment, mem_payloads member ?_, has⟩
    simp only [Segments.Segment.Has, Segments.Segment.stop] at has
    omega
  rw [writtenBy, drained, List.append_nil, stream_spoken spoken] at written
  exact written

end Relays

/-- The commands of the clients of a slave behind the relay. -/
def behindRelay {κ : Type} (link : List (List Bytes))
    (reads : κ → List (List Bytes)) : Option κ → List (List Bytes)
  | none => link
  | some client => reads client

section Mirrors

variable {ι κ : Type} [DecidableEq ι] [DecidableEq κ] {flags flags' : Flags}
  {fds : ι → Int} {fds' : Option κ → Int} {old : List (List Bytes)}
  {idle server : Server Store ι} {idle' replica : Server Store (Option κ)}
  {events : List (Event Store ι)} {events' : List (Event Store (Option κ))}
  {commands : ι → List (List Bytes)} {reads : κ → List (List Bytes)}
  {writer : ι} {clients : ι → Client}
  {malloc : Nat → Option (Nat → UInt8)} {buf : Nat → UInt8}
  {traffic : List (Traffic ι)}

/--
The slave behind the relay mirrors the master.  Both have recovered the same
log; the master serves one client that writes and others that read, and the
slave serves the relay and clients of its own that read.  The streams arrive in
pieces of any size, the packets pass the relay in any order, and the relay sends
what the socket takes.  At every moment the tables of one of the two are tables
that the other one has gone through; and when all commands have passed, the
relay is empty and everything has arrived, both hold the same.
-/
theorem mirror_follows (off : flags.enableTtl = false)
    (off' : flags'.enableTtl = false) (recovers : Recovers flags old idle)
    (serves : Serves flags fds idle events server)
    (sends : ∀ client, Sends events client (commands client))
    (only : OneWriter writer commands)
    (spoken : (clients writer).commands =
      (commands writer).map respEncode)
    (grants : ∀ size, malloc size ≠ none) (carried : Carried clients traffic)
    (undisturbed : Undisturbed clients writer malloc buf traffic)
    (recovers' : Recovers flags' old idle')
    (serves' : Serves flags' fds' idle' events' replica)
    (sends' : ∀ client, Sends events' (some client) (reads client))
    (readOnly : ∀ client, ∀ args ∈ reads client,
      isWriteName (args.getD 0 []) = false)
    (arrived : bytesOf none events' <+:
      (watched malloc buf traffic).2.flatten) :
    ∃ order order',
      Serialized (commandLayer flags) flags fds commands idle events server
          order ∧
        Serialized (commandLayer flags') flags' fds'
          (behindRelay (commands writer) reads) idle' events' replica
          order' ∧
        ((∃ front, front <+: order ∧ ∀ table, SameMap
            (run (serveTurn (commandLayer flags) flags fds) idle.globals
              front).1.store.tables
            replica.globals.store.tables table) ∨
          (∃ front, front <+: order' ∧ ∀ table, SameMap
            server.globals.store.tables
            (run (serveTurn (commandLayer flags') flags' fds') idle'.globals
              front).1.store.tables table)) ∧
        ((∀ place < (respStream (commands writer)).length,
            ∃ segment frame, .packet writer segment frame ∈ traffic ∧
              segment.Has place) →
          (watched malloc buf traffic).1.rb.contents = [] →
          bytesOf none events' = (watched malloc buf traffic).2.flatten →
          bytesOf writer events = respStream (commands writer) →
          ∀ table, SameMap server.globals.store.tables
            replica.globals.store.tables table) := by
  have linked : Sends events' none (commands writer) :=
    ⟨(sends writer).sizes,
      arrived.trans (sent_commands spoken grants carried undisturbed)⟩
  have all : ∀ client, Sends events' client
      (behindRelay (commands writer) reads client) := by
    intro client
    cases client with
    | none => exact linked
    | some client => exact sends' client
  have only' : OneWriter none (behindRelay (commands writer) reads) := by
    intro client other args member
    cases client with
    | none => exact absurd rfl other
    | some client => exact readOnly client args member
  obtain ⟨order, explained, -⟩ := serves.explained sends
  obtain ⟨order', explained', -⟩ := serves'.explained all
  refine ⟨order, order', explained, explained', ?_, ?_⟩
  · obtain ⟨done, todo, -, split, -, -, executed, -⟩ :=
      explained.served writer
    obtain ⟨done', todo', -, split', -, -, executed', -⟩ :=
      explained'.served none
    have ahead : done <+: commands writer := ⟨todo, split.symm⟩
    have ahead' : done' <+: commands writer := ⟨todo', split'.symm⟩
    rcases List.prefix_or_prefix_of_prefix ahead ahead' with behind | behind
    · right
      rw [← executed, ← executed'] at behind
      obtain ⟨front, shorter, same⟩ := exists_front explained' behind
      refine ⟨front, shorter, fun table => ?_⟩
      have agree := fronts_agree off off' recovers recovers' serves serves'
        explained explained' only only' List.prefix_rfl shorter
        (by rw [explained.commands, same]) table
      rwa [explained.globals] at agree
    · left
      rw [← executed, ← executed'] at behind
      obtain ⟨front, shorter, same⟩ := exists_front explained behind
      refine ⟨front, shorter, fun table => ?_⟩
      have agree := fronts_agree off off' recovers recovers' serves serves'
        explained explained' only only' shorter List.prefix_rfl
        (by rw [explained'.commands, same]) table
      rwa [explained'.globals] at agree
  · intro passed drained received whole
    rw [sent_complete spoken grants carried undisturbed passed drained]
      at received
    have served := explained.served writer
    have served' := explained'.served none
    rw [whole] at served
    rw [received] at served'
    exact ends_agree off off' recovers recovers' serves serves' explained
      explained' only only'
      (served.complete.1.trans served'.complete.1.symm)

end Mirrors

/-! ## A short run -/

/-- A client that sends `SET k v`. -/
def setting : Client where
  address := 0x0a000001
  port := 40000
  isn := 2 ^ 32 - 3
  commands := [setFrame]
  nonempty := by decide

/-- Its stream in three packets, the second one out of order, and all of it goes
out. -/
def setTraffic : List (Traffic Unit) :=
  packetsOf setting [⟨0, 10⟩, ⟨19, 8⟩, ⟨10, 9⟩] 27

theorem setTraffic_passes :
    PassOneByOne setting [⟨0, 10⟩, ⟨19, 8⟩, ⟨10, 9⟩] 27 where
  read := by decide +kernel
  opens := by
    intro first starts
    exact (Option.some.inj starts).symm
  suits := by decide +kernel

/-- A fresh slave with a relay and one client. -/
def idleMirror : Server Store (Option Unit) :=
  { globals := (freshSession (fun _ => default)).globals
    conns := fun _ => Conn.initial (fun _ => 0)
      (freshSession (fun _ => default)) }

/-- A server that has found no log. -/
theorem recovers_nothing {ι : Type} {flags : Flags} {idle : Server Store ι}
    (fresh : idle.globals = (freshSession (fun _ => default)).globals) :
    Recovers flags [] idle where
  small := by decide
  recovered := ⟨0, freshSession (fun _ => default), _, _, rfl, rfl, fresh⟩

/-- The one command of the master's client reaches the slave, in packets of
which the second comes before the third. -/
theorem mirror_follows_set :
    ∃ (server : Server Store Unit) (replica : Server Store (Option Unit)),
      (watched (fun _ => some zeros) zeros setTraffic).2.flatten = setFrame ∧
        Moves (commandLayer persistentFlags) persistentFlags (fun _ => 7)
          idleServer (.received () setFrame) server ∧
        Moves (commandLayer persistentFlags) persistentFlags (fun _ => 9)
          idleMirror (.received none setFrame) replica ∧
        ∀ table, SameMap server.globals.store.tables
          replica.globals.store.tables table := by
  obtain ⟨server, moved, -⟩ := @exists_served persistentFlags
    (by decide +kernel)
  have begun : ∀ client, ∃ session : Session Store, Opened session ∧
      idleMirror.conns client = Conn.initial (fun _ => 0) session :=
    fun _ => ⟨_, freshSession_opened _, rfl⟩
  obtain ⟨replica, received⟩ := Option.isSome_iff_exists.mp
    (show (idleMirror.receive (commandLayer persistentFlags) persistentFlags
      (fun _ => 9) 3 none setFrame).isSome = true by decide +kernel)
  have linked := Server.receive_moves received
  have sent : (watched (fun _ => some zeros) zeros setTraffic).2.flatten =
      setFrame := by decide +kernel
  obtain ⟨-, -, -, -, -, converges⟩ := @mirror_follows Unit Unit _ _
    persistentFlags persistentFlags (fun _ => 7) (fun _ => 9) [] idleServer
    server idleMirror replica [.received () setFrame] [.received none setFrame]
    setCommands (fun _ => []) () (fun _ => setting) (fun _ => some zeros) zeros
    setTraffic rfl rfl (recovers_nothing rfl)
    ⟨⟨fun _ _ => 0, idleServer_begun⟩, .cons moved .nil,
      by simp [Event.change]⟩
    (fun client => ⟨setCommands_sizes client,
      setFrame_sent client ▸ List.prefix_rfl⟩)
    (fun client other => absurd rfl other) rfl zeros_granted
    setTraffic_passes.carried setTraffic_passes.undisturbed
    (recovers_nothing rfl)
    ⟨⟨fun _ _ => 0, begun⟩, .cons linked .nil, by simp [Event.change]⟩
    (fun _ => ⟨by simp, List.nil_prefix⟩) (by simp) (by decide +kernel)
  exact ⟨server, replica, sent, moved, linked,
    converges (passed_packetsOf (by decide) setting 27) (by decide +kernel)
      (by decide +kernel) (by decide +kernel)⟩

end Kivo.Relay.Mirror
