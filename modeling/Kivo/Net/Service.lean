import Kivo.Net.Clients
import Kivo.Server.KeyValue

/-!
# The server as a key-value service

Any number of clients use the commands of the families over connections whose
streams are cut and interleaved in any way.  The replies that a client gets are
those of plain maps: one history of single commands explains the server, and
served on the maps, one command after the other, that history gives every
client the very bytes that it is sent.
-/

namespace Kivo.Net.Service

open Kivo.Clib.Memory
open Kivo.Clib.Simulation
open Kivo.Engine.Store
open Kivo.Resp.Frame
open Kivo.Resp.Stream
open Kivo.Server.State
open Kivo.Server.Commands
open Kivo.Server.CommandTable
open Kivo.Server.Serving
open Kivo.Server.Alignment (plainFlags)
open Kivo.Server.ReadBack (freshServer)
open Kivo.Server.KeyValue
open Kivo.Net.Ntyco
open Kivo.Net.Clients

/-- An entry of a sequential history, served on the maps. -/
def mapTurn {σ ι : Type} (maps : Maps) : Turn σ ι → Maps × Bytes
  | .command _ _ _ args => maps.step args
  | .other _ => (maps, [])

/-- A change by another coroutine that leaves the tables alone. -/
def Untabled (change : Globals Store → Globals Store) : Prop :=
  ∀ globals, (change globals).store.tables = globals.store.tables

/-- The requests that any client sends. -/
def Sent {ι : Type} (commands : ι → List (List Bytes)) (args : List Bytes) :
    Prop :=
  ∃ client, args ∈ commands client

section Histories

variable {ι : Type} {flags : Flags} {fds : ι → Int}
  {commands : ι → List (List Bytes)}

/-- An entry of a history of these clients. -/
structure Fits (commands : ι → List (List Bytes)) (turn : Turn Store ι) :
    Prop where
  stored : turn.Stored
  asked : ∀ client mem address args,
    turn = .command client mem address args → args ∈ commands client
  untabled : ∀ change, turn.change = some change → Untabled change

/-- The entries of a history that explains a server. -/
theorem serialized_fits [DecidableEq ι] {layer : CommandLayer Command Store}
    {start server : Server Store ι} {events : List (Event Store ι)}
    {order : List (Turn Store ι)}
    (explained : Serialized layer flags fds commands start events server
      order)
    (untabled : ∀ change ∈ events.filterMap Event.change, Untabled change) :
    ∀ turn ∈ order, Fits commands turn := by
  intro turn member
  refine ⟨explained.stored turn member, ?_, ?_⟩
  · rintro client mem address args rfl
    exact explained.mem_commands
      (List.mem_filterMap.mpr ⟨_, member, if_pos rfl⟩)
  · intro change here
    refine untabled change ?_
    rw [← explained.others]
    exact List.mem_filterMap.mpr ⟨turn, member, here⟩

/-- An entry is served as on the maps. -/
theorem serveTurn_maps (off : flags.enableTtl = false)
    {keys : Family → Finset Bytes} (fitting : Fitting keys (Sent commands))
    {turn : Turn Store ι} (fits : Fits commands turn)
    {globals : Globals Store} {maps : Maps}
    (serves : Serves keys (Unadded (Sent commands)) globals.store.tables
      maps) :
    Serves keys (Unadded (Sent commands))
        (serveTurn (commandLayer flags) flags fds globals
          turn).1.store.tables
        (mapTurn maps turn).1 ∧
      ((∀ client mem address args,
          turn = .command client mem address args →
            familyCommand args ≠ none) →
        (serveTurn (commandLayer flags) flags fds globals turn).2 =
          (mapTurn maps turn).2) := by
  cases turn with
  | command client mem address args =>
      obtain ⟨stored, small⟩ := fits.stored
      let request : Request :=
        { fd := fds client
          mem := mem
          address := address
          args := args
          stored := stored
          small := small }
      obtain ⟨next, answer⟩ := @serves_request flags off keys _ fitting
        globals maps serves request
        ⟨client, fits.asked client mem address args rfl⟩
      exact ⟨next, fun proper =>
        answer (proper client mem address args rfl)⟩
  | other change =>
      refine ⟨?_, fun _ => rfl⟩
      rw [serveTurn, fits.untabled change rfl globals]
      exact serves

/-- The replies to a client that keeps to the commands of the families are
those of the maps. -/
theorem answersTo_maps [DecidableEq ι] (off : flags.enableTtl = false)
    {keys : Family → Finset Bytes} (fitting : Fitting keys (Sent commands))
    {order : List (Turn Store ι)} (fits : ∀ turn ∈ order, Fits commands turn)
    {globals : Globals Store} (created : globals.store.tables = Tables.create)
    {client : ι} (proper : ∀ args ∈ commands client,
      familyCommand args ≠ none) :
    answersTo (serveTurn (commandLayer flags) flags fds) (Turn.isOf client)
        globals order =
      answersTo mapTurn (Turn.isOf client) Maps.empty order := by
  have keeps : ∀ (globals : Globals Store) (maps : Maps)
      (turn : Turn Store ι), Fits commands turn →
      Serves keys (Unadded (Sent commands)) globals.store.tables maps →
      Serves keys (Unadded (Sent commands))
          (serveTurn (commandLayer flags) flags fds globals
            turn).1.store.tables
          (mapTurn maps turn).1 ∧
        (turn.isOf client = true →
          (serveTurn (commandLayer flags) flags fds globals turn).2 =
            (mapTurn maps turn).2) := by
    intro globals maps turn fits serves
    obtain ⟨next, answer⟩ := serveTurn_maps off fitting fits serves
    refine ⟨next, fun own => answer ?_⟩
    rintro other mem address args rfl
    rw [Turn.isOf, decide_eq_true_eq] at own
    exact proper args (own ▸ fits.asked other mem address args rfl)
  refine answersTo_related keeps fits ?_
  rw [created]
  exact serves_create keys _

end Histories

section Clients

variable {ι : Type} [DecidableEq ι]

/--
Whatever the order in which the connections receive their streams, and however
these are cut, a client that keeps to the commands of the families is sent what
the maps answer to its commands in one sequential history.  The history explains
the server, and what was carried out before some moment stands in front of what
is carried out behind it.
-/
theorem clients_see_maps {flags : Flags} (off : flags.enableTtl = false)
    (fds : ι → Int) {commands : ι → List (List Bytes)}
    (sizes : ∀ client, ∀ frame ∈ commands client,
      ((respEncode frame).length : Int) ≤ maxRbufferSize)
    {keys : Family → Finset Bytes}
    (fitting : Fitting keys (Sent commands))
    (fresh : ι → Nat → UInt8) {start middle last : Server Store ι}
    (created : start.globals.store.tables = Tables.create)
    (begun : ∀ client, ∃ session : Session Store, Opened session ∧
      start.conns client = Conn.initial (fresh client) session)
    {first second : List (Event Store ι)}
    (early : Traced (Moves (commandLayer flags) flags fds) start first middle)
    (late : Traced (Moves (commandLayer flags) flags fds) middle second last)
    (initial : ∀ client, bytesOf client (first ++ second) <+:
      respStream (commands client))
    (untabled : ∀ change ∈ (first ++ second).filterMap Event.change,
      Untabled change) :
    ∃ before behind,
      Serialized (commandLayer flags) flags fds commands start first middle
          before ∧
        Serialized (commandLayer flags) flags fds commands start
          (first ++ second) last (before ++ behind) ∧
        ∀ client, (∀ args ∈ commands client, familyCommand args ≠ none) →
          Answered (start.conns client).session.wbuf.isSome
            (last.conns client)
            (answersTo mapTurn (Turn.isOf client) Maps.empty
              (before ++ behind)).flatten := by
  obtain ⟨before, reached⟩ := (serialized_start fresh begun).run sizes early
    (fun client => bytesOf_front (initial client))
  rw [List.nil_append, List.nil_append] at reached
  obtain ⟨behind, finished⟩ := reached.run sizes late initial
  refine ⟨before, behind, reached, finished, ?_⟩
  intro client proper
  rw [← answersTo_maps off fitting (serialized_fits finished untabled)
    created proper]
  exact finished.replies client

end Clients

/-- One client sets a key and reads it, another one reads the same key of the
red-black tree. -/
def pairCommands : Bool → List (List Bytes)
  | false => [[ascii "SET", ascii "k", ascii "v"], [ascii "GET", ascii "k"]]
  | true => [[ascii "RGET", ascii "k"]]

/-- A fresh server with two connections. -/
def pairServer : Server Store Bool :=
  { globals := freshServer
    conns := fun _ => Conn.initial (fun _ => 0) (single freshServer) }

theorem pairCommands_fitting :
    Fitting (fun _ => {ascii "k"}) (Sent pairCommands) := by
  have listed : ∀ args, Sent pairCommands args →
      args ∈ pairCommands false ++ pairCommands true := by
    rintro args ⟨client, member⟩
    cases client with
    | false => exact List.mem_append_left _ member
    | true => exact List.mem_append_right _ member
  have keyed : ∀ args ∈ pairCommands false ++ pairCommands true,
      settingKey args = none ∨
        settingKey args = some (.array, ascii "k") := by
    decide +kernel
  have foreign : ∀ args ∈ pairCommands false ++ pairCommands true,
      (familyCommand args).map Prod.fst ≠ some .skip := by
    decide +kernel
  refine ⟨?_, ?_, by decide, by decide, ?_⟩
  · intro args sent family key sets
    rcases keyed args (listed args sent) with none | some
    · rw [none] at sets
      cases sets
    · rw [some] at sets
      cases sets
      exact Finset.mem_singleton_self _
  · intro args sent empty
    rcases keyed args (listed args sent) with none | some
    · rw [none] at empty
      cases empty
    · rw [some] at empty
      cases empty
  · intro args sent kind named
    have other := foreign args (listed args sent)
    rw [named] at other
    exact absurd rfl other

/-- The server after both clients have sent their commands. -/
def pairServed : Option (Server Store Bool) :=
  let step := Server.receive (commandLayer plainFlags) plainFlags
    (fun _ => 7) 4
  (step false (respStream (pairCommands false)) pairServer).bind
    (step true (respStream (pairCommands true)))

/-- The clients are sent the replies of the maps: the value that was set, and
that the red-black tree has no such key. -/
theorem clients_see_maps_pair :
    ∃ (last : Server Store Bool) (order : List (Turn Store Bool)),
      Traced (Moves (commandLayer plainFlags) plainFlags (fun _ => 7))
          pairServer
          [.received false (respStream (pairCommands false)),
            .received true (respStream (pairCommands true))] last ∧
        (∀ client, Answered true (last.conns client)
          (answersTo mapTurn (Turn.isOf client) Maps.empty
            order).flatten) ∧
        (last.conns false).sent = ascii "+OK\r\n$1\r\nv\r\n" ∧
        (last.conns true).sent = ascii "$-1\r\n" := by
  have sizes : ∀ client, ∀ frame ∈ pairCommands client,
      ((respEncode frame).length : Int) ≤ maxRbufferSize := by
    decide +kernel
  have begun : ∀ client, ∃ session : Session Store, Opened session ∧
      pairServer.conns client = Conn.initial (fun _ => 0) session :=
    fun _ => ⟨single _, single_opened _, rfl⟩
  have proper : ∀ client, ∀ args ∈ pairCommands client,
      familyCommand args ≠ none := by
    decide +kernel
  have run : pairServed.map (fun server =>
      ((server.conns false).sent, (server.conns true).sent)) =
        some (ascii "+OK\r\n$1\r\nv\r\n", ascii "$-1\r\n") := by
    decide +kernel
  obtain ⟨two, served, sent⟩ := Option.map_eq_some_iff.mp run
  rw [pairServed] at served
  obtain ⟨one, first, second⟩ := Option.bind_eq_some_iff.mp served
  have early : Traced (Moves (commandLayer plainFlags) plainFlags
      (fun _ => 7)) pairServer _ one :=
    .cons (Server.receive_moves first) .nil
  have late : Traced (Moves (commandLayer plainFlags) plainFlags
      (fun _ => 7)) one _ two :=
    .cons (Server.receive_moves second) .nil
  obtain ⟨before, behind, -, -, answered⟩ := clients_see_maps rfl
    (fun _ => 7) sizes pairCommands_fitting (fun _ _ => 0) rfl begun
    early late (by decide +kernel) (by simp [Event.change])
  exact ⟨two, before ++ behind,
    .cons (Server.receive_moves first) late,
    fun client => answered client (proper client),
    congrArg Prod.fst sent, congrArg Prod.snd sent⟩

end Kivo.Net.Service
