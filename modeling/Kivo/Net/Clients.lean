import Kivo.Net.WriteBuffer

/-!
# Many connections at once

Every connection has a coroutine of its own.  A coroutine runs from one `recv`
to the next without a pause: it stores the bytes, carries out the complete
commands among them and sends the replies.  The globals are shared, and other
coroutines (for expired keys, for the log and for the slave) change them in
between.

This module lets any number of connections receive their streams in pieces of
any size and in any order, and shows that the server behaves as if the commands
had come one after the other: there is one history of single commands which
leads to the same globals, in which the commands of every client come in their
order, and in which every client gets the replies that it was sent.
-/

namespace Kivo.Net.Clients

open Kivo.Clib.Memory
open Kivo.Clib.Simulation
open Kivo.Resp.Frame
open Kivo.Resp.Canonical
open Kivo.Resp.Reply
open Kivo.Resp.Stream
open Kivo.Server.State
open Kivo.Net.Ntyco
open Kivo.Net.WriteBuffer

/-! ## The server -/

/-- The globals and the connections; what a session says about the globals
counts only while its coroutine runs. -/
structure Server (σ ι : Type) where
  globals : Globals σ
  conns : ι → Conn σ

section Server

variable {σ ι : Type}

/-- A connection as its coroutine finds it. -/
def Server.seen (server : Server σ ι) (client : ι) : Conn σ :=
  { server.conns client with
    session :=
      { (server.conns client).session with globals := server.globals } }

/-- The server after an iteration of the coroutine of a client. -/
def Server.resumed [DecidableEq ι] (server : Server σ ι) (client : ι)
    (c : Conn σ) : Server σ ι :=
  { globals := c.session.globals
    conns := Function.update server.conns client c }

@[simp]
theorem Server.resumed_self [DecidableEq ι] (server : Server σ ι)
    (client : ι) (c : Conn σ) :
    (server.resumed client c).conns client = c := by
  simp [Server.resumed]

theorem Server.resumed_of_ne [DecidableEq ι] (server : Server σ ι)
    {client other : ι} (apart : other ≠ client) (c : Conn σ) :
    (server.resumed client c).conns other = server.conns other := by
  simp [Server.resumed, apart]

end Server

/-- What happens to the server. -/
inductive Event (σ ι : Type) where
  | received (client : ι) (chunk : Bytes)
  | wouldBlock (client : ι)
  | other (change : Globals σ → Globals σ)

section Events

variable {σ ι : Type}

/-- The bytes that an event brings from a client. -/
def Event.bytes [DecidableEq ι] (client : ι) : Event σ ι → Bytes
  | .received sender chunk => if sender = client then chunk else []
  | .wouldBlock _ => []
  | .other _ => []

/-- The bytes that a client has sent. -/
def bytesOf [DecidableEq ι] (client : ι) (events : List (Event σ ι)) :
    Bytes :=
  events.flatMap (Event.bytes client)

/-- What another coroutine does in an event. -/
def Event.change : Event σ ι → Option (Globals σ → Globals σ)
  | .received _ _ => none
  | .wouldBlock _ => none
  | .other change => some change

end Events

/-- Nothing was written behind the write buffer of the connection. -/
def Intact {σ : Type} (c : Conn σ) : Prop :=
  ∀ wbuf ∈ c.session.wbuf, wbuf.overrun = false

instance {σ : Type} (c : Conn σ) : Decidable (Intact c) :=
  Option.decidableForallMem c.session.wbuf

/--
One event: an iteration of a coroutine whose connection stays open, with a
chunk that fits the space `recv` is offered or with nothing to read, or a
change of the globals by a coroutine without a connection.  An iteration that
writes behind its write buffer is none: what the program does then is not
defined.
-/
inductive Moves {κ σ ι : Type} [DecidableEq ι] (layer : CommandLayer κ σ)
    (flags : Flags) (fds : ι → Int) :
    Server σ ι → Event σ ι → Server σ ι → Prop where
  | received {server : Server σ ι} {client : ι} {chunk : Bytes}
      {fuel : Nat} {fresh : Nat → UInt8} {next : Conn σ}
      (nonempty : chunk ≠ [])
      (fits : (chunk.length : Int) ≤
        ((server.seen client).grow fresh).requested)
      (ran : clientIteration layer flags (fds client) fuel fresh
        (.data chunk) (server.seen client) = some (.continued next))
      (intact : Intact next) :
      Moves layer flags fds server (.received client chunk)
        (server.resumed client next)
  | wouldBlock {server : Server σ ι} {client : ι} {fuel : Nat}
      {fresh : Nat → UInt8} {next : Conn σ}
      (ran : clientIteration layer flags (fds client) fuel fresh .wouldBlock
        (server.seen client) = some (.continued next)) :
      Moves layer flags fds server (.wouldBlock client)
        (server.resumed client next)
  | other {server : Server σ ι} (change : Globals σ → Globals σ) :
      Moves layer flags fds server (.other change)
        { server with globals := change server.globals }

/-- The iteration of a client that receives a chunk, over fresh memory of
zeros; there is no result where the chunk does not fit, the connection is
closed or the write buffer overrun. -/
def Server.receive {κ σ ι : Type} [DecidableEq ι] (layer : CommandLayer κ σ)
    (flags : Flags) (fds : ι → Int) (fuel : Nat) (client : ι) (chunk : Bytes)
    (server : Server σ ι) : Option (Server σ ι) :=
  if chunk ≠ [] ∧ (chunk.length : Int) ≤
      ((server.seen client).grow (fun _ => 0)).requested then
    match clientIteration layer flags (fds client) fuel (fun _ => 0)
        (.data chunk) (server.seen client) with
    | some (.continued next) =>
        if Intact next then some (server.resumed client next) else none
    | _ => none
  else none

theorem Server.receive_moves {κ σ ι : Type} [DecidableEq ι]
    {layer : CommandLayer κ σ} {flags : Flags} {fds : ι → Int} {fuel : Nat}
    {client : ι} {chunk : Bytes} {server next : Server σ ι}
    (ran : server.receive layer flags fds fuel client chunk = some next) :
    Moves layer flags fds server (.received client chunk) next := by
  rw [Server.receive] at ran
  split_ifs at ran with fits
  split at ran
  · next c iterated =>
      split_ifs at ran with intact
      cases ran
      exact .received fits.1 fits.2 iterated intact
  · cases ran

/-! ## Sequential histories -/

/-- An entry of a sequential history: a command of a client, with the memory
that holds its frame, or a change by another coroutine. -/
inductive Turn (σ ι : Type) where
  | command (client : ι) (mem : Bytes) (address : Int) (args : List Bytes)
  | other (change : Globals σ → Globals σ)

section Turns

variable {κ σ ι : Type}

/-- The memory of a command holds its canonical frame. -/
def Turn.Stored : Turn σ ι → Prop
  | .command _ mem address args =>
      Holds mem address (respEncode args) ∧
        (respEncode args).length < 2 ^ 31
  | .other _ => True

/-- The arguments of a command of the given client. -/
def Turn.argsOf [DecidableEq ι] (client : ι) :
    Turn σ ι → Option (List Bytes)
  | .command sender _ _ args => if sender = client then some args else none
  | .other _ => none

/-- The entry is a command of the given client. -/
def Turn.isOf [DecidableEq ι] (client : ι) : Turn σ ι → Bool
  | .command sender _ _ _ => decide (sender = client)
  | .other _ => false

/-- What another coroutine does in an entry. -/
def Turn.change : Turn σ ι → Option (Globals σ → Globals σ)
  | .command _ _ _ _ => none
  | .other change => some change

/-- The bytes in the write buffer of a session. -/
def written (session : Session σ) : Bytes :=
  (session.wbuf.map WriteBuffer.bytes).getD []

/-- A session of its own for a single command. -/
def single (globals : Globals σ) : Session σ :=
  { globals := globals
    wbuf := some { bytes := [], wcap := 0, wlen := 0, overrun := false }
    executed := [] }

/-- One entry of a sequential history: the globals behind it, and the reply. -/
def serveTurn (layer : CommandLayer κ σ) (flags : Flags) (fds : ι → Int)
    (globals : Globals σ) : Turn σ ι → Globals σ × Bytes
  | .command client mem address args =>
      let after := serveCommand layer flags (fds client) mem address
        (respEncode args).length (single globals)
      (after.globals, written after)
  | .other change => (change globals, [])

/-- The entries for consecutive frames of a client. -/
def turnsOf (client : ι) (mem : Bytes) :
    Int → List (List Bytes) → List (Turn σ ι)
  | _, [] => []
  | address, args :: rest =>
      .command client mem address args ::
        turnsOf client mem (address + (respEncode args).length) rest

end Turns

section Entries

variable {κ σ ι : Type}

theorem turnsOf_stored (client : ι) {mem : Bytes} {address : Int}
    {commands : List (List Bytes)}
    (stored : Holds mem address (respStream commands))
    (small : (respStream commands).length < 2 ^ 31) :
    ∀ turn ∈ (turnsOf client mem address commands : List (Turn σ ι)),
      turn.Stored := by
  induction commands generalizing address with
  | nil => simp [turnsOf]
  | cons args rest induction =>
      rw [respStream_cons] at stored small
      rw [List.length_append] at small
      intro turn member
      rcases List.mem_cons.mp member with rfl | later
      · exact ⟨stored.left, by omega⟩
      · exact induction stored.right (by omega) turn later

theorem turnsOf_change (client : ι) (mem : Bytes) (address : Int)
    (commands : List (List Bytes)) :
    (turnsOf client mem address commands : List (Turn σ ι)).filterMap
      Turn.change = [] := by
  induction commands generalizing address with
  | nil => rfl
  | cons args rest induction => exact induction _

theorem turnsOf_argsOf [DecidableEq ι] (client other : ι) (mem : Bytes) (address : Int)
    (commands : List (List Bytes)) :
    (turnsOf client mem address commands : List (Turn σ ι)).filterMap
      (Turn.argsOf other) = if client = other then commands else [] := by
  induction commands generalizing address with
  | nil => simp [turnsOf]
  | cons args rest induction =>
      rw [turnsOf, List.filterMap_cons, Turn.argsOf, induction]
      split_ifs <;> rfl

theorem turnsOf_answersTo [DecidableEq ι] (layer : CommandLayer κ σ) (flags : Flags)
    (fds : ι → Int) (client other : ι) (mem : Bytes) (address : Int)
    (commands : List (List Bytes)) (globals : Globals σ) :
    answersTo (serveTurn layer flags fds) (Turn.isOf other) globals
        (turnsOf client mem address commands) =
      if client = other then
        (run (serveTurn layer flags fds) globals
          (turnsOf client mem address commands)).2
      else [] := by
  induction commands generalizing address globals with
  | nil => simp [turnsOf, answersTo, run]
  | cons args rest induction =>
      rw [turnsOf, answersTo, Turn.isOf, run, induction]
      by_cases same : client = other
      · rw [if_pos (decide_eq_true same), if_pos same, if_pos same]
      · rw [if_neg (by simpa using same), if_neg same, if_neg same]

end Entries

/-! ## A pipeline as single commands -/

section Pipelines

variable {κ σ ι : Type} {layer : CommandLayer κ σ} {flags : Flags}

/-- A session has received these replies since another one. -/
structure Replied (before after : Session σ) (replies : Bytes) : Prop where
  same : after.wbuf.isSome = before.wbuf.isSome
  written : before.wbuf.isSome = true →
    written after = written before ++ replies

theorem Replied.refl (session : Session σ) : Replied session session [] :=
  ⟨rfl, fun _ => (List.append_nil _).symm⟩

theorem Replied.trans {first second third : Session σ}
    {early late : Bytes} (before : Replied first second early)
    (after : Replied second third late) :
    Replied first third (early ++ late) := by
  refine ⟨after.same.trans before.same, ?_⟩
  intro audible
  rw [after.written (before.same.trans audible), before.written audible,
    List.append_assoc]

/-- A packed reply is appended. -/
theorem replied_packReply {before after : Session σ} {reply : RespReply}
    (packed : after.wbuf = packReply before.wbuf reply) :
    Replied before after (respPack reply) := by
  refine ⟨?_, ?_⟩
  · rw [packed, packReply, Option.isSome_map]
  · intro audible
    obtain ⟨wbuf, there⟩ := Option.isSome_iff_exists.mp audible
    rw [written, written, packed, there]
    rfl

/-- What a command does to the globals and replies does not depend on what was
replied before. -/
theorem serveCommand_single (fd : Int) (mem : Bytes)
    (address length : Int) (session : Session σ) :
    (serveCommand layer flags fd mem address length session).globals =
        (serveCommand layer flags fd mem address length
          (single session.globals)).globals ∧
      Replied session (serveCommand layer flags fd mem address length session)
        (written (serveCommand layer flags fd mem address length
          (single session.globals))) := by
  simp only [serveCommand]
  by_cases ping : requestIs mem (respUnpackNoModify mem address length)
      (ascii "PING") = true
  · rw [if_pos ping, if_pos ping]
    exact ⟨rfl, replied_packReply rfl⟩
  · rw [if_neg ping, if_neg ping]
    by_cases rdma : (flags.enableReplMaster && requestIs mem
        (respUnpackNoModify mem address length) (ascii "RDMA_CONNECT")) = true
    · rw [if_pos rdma, if_pos rdma]
      exact ⟨rfl, rfl, fun _ => (List.append_nil _).symm⟩
    · rw [if_neg rdma, if_neg rdma]
      exact ⟨rfl, replied_packReply rfl⟩

/-- Consecutive frames are served one by one. -/
theorem runWindows_turns (fds : ι → Int) (client : ι) (mem : Bytes)
    (commands : List (List Bytes)) (address : Int) (session : Session σ) :
    (runWindows (serveCommand layer flags (fds client) mem)
          (frameWindows address commands) session).globals =
        (run (serveTurn layer flags fds) session.globals
          (turnsOf client mem address commands)).1 ∧
      Replied session
        (runWindows (serveCommand layer flags (fds client) mem)
          (frameWindows address commands) session)
        (run (serveTurn layer flags fds) session.globals
          (turnsOf client mem address commands)).2.flatten := by
  induction commands generalizing address session with
  | nil => exact ⟨rfl, Replied.refl session⟩
  | cons args rest induction =>
      obtain ⟨globals, replied⟩ := @serveCommand_single κ σ layer flags
        (fds client) mem address (respEncode args).length session
      obtain ⟨last, later⟩ := induction (address + (respEncode args).length)
        (serveCommand layer flags (fds client) mem address
          (respEncode args).length session)
      rw [globals] at last later
      exact ⟨last, replied.trans later⟩

end Pipelines

/-! ## One iteration -/

section Iterations

variable {κ σ : Type} {layer : CommandLayer κ σ} {flags : Flags} {fd : Int}

/-- The write buffer of a session is in order unless it was overrun. -/
def Orderly (session : Session σ) : Prop :=
  ∀ wbuf ∈ session.wbuf, wbuf.overrun = false → InOrder wbuf

theorem Orderly.pack {before after : Session σ} {reply : RespReply}
    (orderly : Orderly before)
    (packed : after.wbuf = packReply before.wbuf reply) : Orderly after := by
  intro wbuf there intact
  rw [Option.mem_def, packed, packReply, Option.map_eq_some_iff] at there
  obtain ⟨prior, member, rfl⟩ := there
  exact (orderly prior member (overrun_eq_false_iff.mp intact).1).kept intact

theorem Orderly.serve {session : Session σ}
    (orderly : Orderly session) (mem : Bytes) (address length : Int) :
    Orderly (serveCommand layer flags fd mem address length session) := by
  simp only [serveCommand]
  by_cases ping : requestIs mem (respUnpackNoModify mem address length)
      (ascii "PING") = true
  · rw [if_pos ping]
    exact orderly.pack rfl
  · rw [if_neg ping]
    by_cases rdma : (flags.enableReplMaster && requestIs mem
        (respUnpackNoModify mem address length) (ascii "RDMA_CONNECT")) = true
    · rw [if_pos rdma]
      exact orderly
    · rw [if_neg rdma]
      exact orderly.pack rfl

theorem Orderly.windows {session : Session σ} (orderly : Orderly session)
    (mem : Bytes) (windows : List (Int × Int)) :
    Orderly (runWindows (serveCommand layer flags fd mem) windows
      session) := by
  induction windows generalizing session with
  | nil => exact orderly
  | cons window windows induction =>
      exact induction (orderly.serve mem window.1 window.2)

/-- What a client has been sent; nothing is left to send, and nothing is sent
on a connection without a write buffer. -/
structure Answered (audible : Bool) (c : Conn σ) (replies : Bytes) :
    Prop where
  wbuf : c.session.wbuf.isSome = audible
  emptied : ∀ wbuf ∈ c.session.wbuf, InOrder wbuf ∧ wbuf.bytes = []
  replies : audible = true → c.sent = replies
  silent : audible = false → c.sent = []

/-- A write buffer that was not overrun is flushed to its last byte, so that
the new replies stand behind the old ones. -/
theorem Answered.extend {audible : Bool} {c middle : Conn σ}
    {replies late : Bytes} (answered : Answered audible c replies)
    (sent : middle.sent = c.sent)
    (replied : Replied c.session middle.session late)
    (orderly : Orderly c.session → Orderly middle.session)
    (intact : Intact middle.flushReplies) :
    Answered audible middle.flushReplies (replies ++ late) := by
  obtain ⟨some, emptied, before, silent⟩ := answered
  have ordered := orderly (fun wbuf there _ => (emptied wbuf there).1)
  have same := replied.same.trans some
  have nothing : c.session.wbuf.isSome = true → written c.session = [] := by
    intro open'
    obtain ⟨wbuf, there⟩ := Option.isSome_iff_exists.mp open'
    rw [written, there]
    exact (emptied wbuf there).2
  rw [Conn.flushReplies] at intact ⊢
  split at intact
  · next none =>
      rw [none] at same
      refine ⟨by rw [none]; exact same, ?_, ?_, ?_⟩
      · intro wbuf there
        rw [none] at there
        cases there
      · intro open'
        rw [open'] at same
        cases same
      · intro closed
        rw [sent, silent closed]
  · next wbuf there =>
      have heard := replied.written
      rw [there] at same
      have open' : c.session.wbuf.isSome = true := some.trans same.symm
      have late' : wbuf.bytes = late := by
        have all := heard open'
        rw [nothing open', List.nil_append, written, there] at all
        exact all
      split_ifs at intact ⊢ with any
      · obtain ⟨counted, within, int, inside⟩ :=
          ordered wbuf there
            (intact { wbuf with bytes := [], wlen := 0 } rfl)
        refine ⟨same, ?_, ?_, ?_⟩
        · intro flushed member
          cases member
          refine ⟨⟨rfl, ?_, int, inside⟩, rfl⟩
          exact any.le.trans within
        · intro audible
          rw [sent, late', before audible]
        · intro closed
          rw [closed] at same
          cases same
      · have inOrder := ordered wbuf there (intact wbuf there)
        have counted := inOrder.counted
        have blank : wbuf.bytes = [] :=
          List.eq_nil_of_length_eq_zero (by omega)
        refine ⟨by rw [there]; exact same, ?_, ?_, ?_⟩
        · intro other member
          rw [there] at member
          cases member
          exact ⟨inOrder, blank⟩
        · intro audible
          rw [sent, before audible, ← late', blank, List.append_nil]
        · intro closed
          rw [closed] at same
          cases same

theorem grow_sent (fresh : Nat → UInt8) (c : Conn σ) :
    (c.grow fresh).sent = c.sent := by
  rw [Conn.grow]
  split_ifs <;> rfl

theorem compact_sent (c : Conn σ) (total : Int) :
    (c.compact total).sent = c.sent := by
  rw [Conn.compact]
  split_ifs <;> rfl

/-- An iteration carries out the frames that have become complete, as they lie
in the receive buffer. -/
theorem iteration_windows {commands : List (List Bytes)}
    (sizes : ∀ frame ∈ commands,
      ((respEncode frame).length : Int) ≤ maxRbufferSize)
    {c next : Conn σ} {bytes chunk : Bytes}
    (served : ServedPrefix commands c bytes) (nonempty : chunk ≠ [])
    {fresh : Nat → UInt8} {fuel : Nat}
    (fits : (chunk.length : Int) ≤ (c.grow fresh).requested)
    (initial : bytes ++ chunk <+: respStream commands)
    (ran : clientIteration layer flags fd fuel fresh (.data chunk) c =
      some (.continued next)) :
    ∃ mem now middle total,
      Holds mem 0 (respStream now) ∧ (respStream now).length < 2 ^ 31 ∧
        middle.session = runWindows (serveCommand layer flags fd mem)
          (frameWindows 0 now) c.session ∧
        middle.sent = c.sent ∧
        next = (Conn.compact middle total).flushReplies ∧
        next.session.executed = c.session.executed ++ now ∧
        ServedPrefix commands next (bytes ++ chunk) := by
  have below := served.below sizes
  have after : ServedPrefix commands next (bytes ++ chunk) := by
    obtain ⟨expected, again, after⟩ := served.data layer flags fd sizes
      nonempty fits initial (le_max_right fuel (commands.length + 2))
    have same := clientIteration_mono ran
      (le_max_left fuel (commands.length + 2))
    rw [again] at same
    cases same
    exact after
  obtain ⟨done, todo, unread, rfl, rfl, part, executed, buffered⟩ := served
  have stored := (buffered.grow fresh).store fits
  rw [respStream_append, List.append_assoc,
    List.prefix_append_right_inj] at initial
  obtain ⟨now, later, rest, rfl, split, restPart⟩ :=
    respStream_prefix_split initial
  have bounds := stored.capacity.bounds
  have inside := stored.rlength_le
  have length := stored.length
  have content := stored.content
  rw [split] at length content
  have limit : ((respStream now ++ rest).length : Int) < 2 ^ 31 := by
    rw [maxRbufferSize] at bounds
    omega
  have holds : Holds ((c.grow fresh).store chunk).rbuffer 0
      (respStream now ++ rest) := ⟨le_rfl, content⟩
  have laterSmall : ∀ frame ∈ later,
      (respEncode frame).length < 2 ^ 31 := by
    intro frame member
    have limit := sizes frame (by simp [member])
    rw [maxRbufferSize] at limit
    omega
  have any : respStream now ++ rest ≠ [] := by
    rw [← split]
    simp [nonempty]
  have parsed := parseLoop_received layer flags fd c.session holds restPart
    laterSmall any (by exact_mod_cast limit)
    (show now.length < max fuel (now.length + 2) by omega)
    (show 2 ≤ max fuel (now.length + 2) by omega)
  have more := clientIteration_mono ran
    (show fuel ≤ max fuel (now.length + 2) by omega)
  have session : ((c.grow fresh).store chunk).session = c.session :=
    Conn.grow_session fresh c
  rw [clientIteration, if_neg (by omega)] at more
  dsimp only at more
  rw [if_neg (by simpa using nonempty), session, length, parsed] at more
  obtain ⟨⟩ := more
  rw [List.length_append] at limit
  refine ⟨_, now, { (c.grow fresh).store chunk with
      rlength := (respStream now ++ rest).length
      session := runWindows (serveCommand layer flags fd
        ((c.grow fresh).store chunk).rbuffer) (frameWindows 0 now)
        c.session }, _, holds.left, by omega, rfl, grow_sent fresh c, rfl, ?_,
    after⟩
  rw [Conn.flushReplies_executed, Conn.compact_session]
  exact runWindows_executed (serveCommand_executed layer flags fd _)
    holds.left (by omega) c.session

end Iterations

/-! ## Every interleaving is sequential -/

section Serialized

variable {κ σ ι : Type} [DecidableEq ι]

/--
A sequential history explains the events of a server: the frames of its
commands are stored, it leads to the globals of the server, it makes the
changes of the other coroutines in their order, and for every client its
commands are the complete ones among the bytes that were received, in their
order, and its replies are those that the client is sent.
-/
structure Serialized (layer : CommandLayer κ σ) (flags : Flags)
    (fds : ι → Int) (commands : ι → List (List Bytes)) (start : Server σ ι)
    (events : List (Event σ ι)) (server : Server σ ι)
    (order : List (Turn σ ι)) : Prop where
  stored : ∀ turn ∈ order, turn.Stored
  globals : (run (serveTurn layer flags fds) start.globals order).1 =
    server.globals
  others : order.filterMap Turn.change = events.filterMap Event.change
  served : ∀ client, ServedPrefix (commands client) (server.conns client)
    (bytesOf client events)
  commands : ∀ client,
    order.filterMap (Turn.argsOf client) =
      (server.conns client).session.executed
  replies : ∀ client,
    Answered (start.conns client).session.wbuf.isSome (server.conns client)
      (answersTo (serveTurn layer flags fds) (Turn.isOf client) start.globals
        order).flatten

variable {layer : CommandLayer κ σ} {flags : Flags} {fds : ι → Int}
  {commands : ι → List (List Bytes)} {start server : Server σ ι}
  {events : List (Event σ ι)} {order : List (Turn σ ι)}

/-- The commands of a history are among those of the clients. -/
theorem Serialized.mem_commands
    (explained : Serialized layer flags fds commands start events server
      order) {client : ι} {args : List Bytes}
    (member : args ∈ order.filterMap (Turn.argsOf client)) :
    args ∈ commands client := by
  rw [explained.commands] at member
  obtain ⟨done, todo, unread, split, -, -, executed, -⟩ :=
    explained.served client
  rw [split]
  rw [executed] at member
  exact List.mem_append_left _ member

theorem bytesOf_append (client : ι) (first second : List (Event σ ι)) :
    bytesOf client (first ++ second) =
      bytesOf client first ++ bytesOf client second :=
  List.flatMap_append

theorem bytesOf_singleton (client : ι) (event : Event σ ι) :
    bytesOf client [event] = event.bytes client :=
  List.append_nil _

/-- What was received early begins what was received in all. -/
theorem bytesOf_front {client : ι} {first second : List (Event σ ι)}
    {stream : Bytes} (whole : bytesOf client (first ++ second) <+: stream) :
    bytesOf client first <+: stream := by
  rw [bytesOf_append] at whole
  exact (List.prefix_append _ _).trans whole

omit [DecidableEq ι] in
theorem servedPrefix_seen {client : ι} {bytes : Bytes}
    (served : ServedPrefix (commands client) (server.conns client) bytes) :
    ServedPrefix (commands client) (server.seen client) bytes := by
  obtain ⟨done, todo, unread, split, shape, part, executed, buffered⟩ :=
    served
  exact ⟨done, todo, unread, split, shape, part, executed,
    buffered.capacity, buffered.allocated, buffered.length,
    buffered.content⟩

/-- The session of a connection that has just been opened. -/
structure Opened (session : Session σ) : Prop where
  executed : session.executed = []
  emptied : ∀ wbuf ∈ session.wbuf, InOrder wbuf ∧ wbuf.bytes = []

omit [DecidableEq ι] in
theorem single_opened (globals : Globals σ) : Opened (single globals) := by
  refine ⟨rfl, ?_⟩
  intro wbuf there
  cases there
  exact ⟨⟨rfl, le_rfl, by decide, rfl⟩, rfl⟩

/-- Nothing has happened yet. -/
theorem serialized_start (fresh : ι → Nat → UInt8)
    (begun : ∀ client, ∃ session : Session σ, Opened session ∧
      start.conns client = Conn.initial (fresh client) session) :
    Serialized layer flags fds commands start [] start [] := by
  refine ⟨by simp, rfl, rfl, ?_, ?_, ?_⟩
  · intro client
    obtain ⟨session, opened, conn⟩ := begun client
    rw [conn]
    exact ⟨[], commands client, [], rfl, rfl, Or.inl rfl, opened.executed,
      Or.inl rfl, by simp [Conn.initial, initBufferSize], rfl,
      List.nil_prefix⟩
  · intro client
    obtain ⟨session, opened, conn⟩ := begun client
    rw [conn]
    exact opened.executed.symm
  · intro client
    obtain ⟨session, opened, conn⟩ := begun client
    rw [conn]
    exact ⟨rfl, opened.emptied, fun _ => rfl, fun _ => rfl⟩

/-- An iteration of a client adds the commands that it carries out. -/
theorem Serialized.received {client : ι} {chunk : Bytes}
    (sizes : ∀ frame ∈ commands client,
      ((respEncode frame).length : Int) ≤ maxRbufferSize)
    (explained : Serialized layer flags fds commands start events server
      order) (nonempty : chunk ≠ [])
    {fresh : Nat → UInt8} {fuel : Nat} {next : Conn σ}
    (fits : (chunk.length : Int) ≤
      ((server.seen client).grow fresh).requested)
    (initial : bytesOf client events ++ chunk <+:
      respStream (commands client))
    (ran : clientIteration layer flags (fds client) fuel fresh (.data chunk)
      (server.seen client) = some (.continued next))
    (intact : Intact next) :
    ∃ more, Serialized layer flags fds commands start
      (events ++ [.received client chunk]) (server.resumed client next)
      (order ++ more) := by
  have served := servedPrefix_seen (explained.served client)
  obtain ⟨mem, now, middle, total, stored, small, session, sent, flushed,
    executed, after⟩ := iteration_windows sizes served nonempty fits initial
      ran
  obtain ⟨globals, replied⟩ := @runWindows_turns κ σ ι layer flags fds client
    mem now 0 (server.seen client).session
  rw [← session] at globals replied
  have last : next.session.globals =
      (run (serveTurn layer flags fds) server.globals
        (turnsOf client mem 0 now)).1 := by
    rw [flushed, Conn.flushReplies_globals, Conn.compact_session, globals]
    rfl
  refine ⟨turnsOf client mem 0 now, ?_, ?_, ?_, ?_, ?_, ?_⟩
  · intro turn member
    rcases List.mem_append.mp member with old | new
    · exact explained.stored turn old
    · exact turnsOf_stored client stored small turn new
  · rw [run_append, explained.globals]
    exact last.symm
  · rw [List.filterMap_append, List.filterMap_append, explained.others,
      turnsOf_change]
    rfl
  · intro other
    rw [bytesOf_append, bytesOf_singleton, Event.bytes]
    by_cases same : other = client
    · subst same
      rw [Server.resumed_self, if_pos rfl]
      exact after
    · rw [Server.resumed_of_ne _ same, if_neg (Ne.symm same),
        List.append_nil]
      exact explained.served other
  · intro other
    rw [List.filterMap_append, explained.commands, turnsOf_argsOf]
    by_cases same : other = client
    · subst same
      rw [Server.resumed_self, if_pos rfl, executed]
      rfl
    · rw [Server.resumed_of_ne _ same, if_neg (Ne.symm same),
        List.append_nil]
  · intro other
    rw [answersTo_append, List.flatten_append, explained.globals,
      turnsOf_answersTo]
    by_cases same : other = client
    · subst same
      rw [Server.resumed_self, if_pos rfl, flushed]
      rw [flushed] at intact
      refine (explained.replies other).extend ?_ ?_ ?_ intact
      · rw [compact_sent, sent]
        rfl
      · rw [Conn.compact_session]
        exact ⟨replied.same, replied.written⟩
      · intro orderly
        have seen : Orderly (server.seen other).session := orderly
        rw [Conn.compact_session, session]
        exact seen.windows mem (frameWindows 0 now)
    · rw [Server.resumed_of_ne _ same, if_neg (Ne.symm same),
        List.flatten_nil, List.append_nil]
      exact explained.replies other

/-- An iteration that reads nothing changes nothing. -/
theorem Serialized.wouldBlock {client : ι}
    (sizes : ∀ frame ∈ commands client,
      ((respEncode frame).length : Int) ≤ maxRbufferSize)
    (explained : Serialized layer flags fds commands start events server
      order) {fresh : Nat → UInt8} {fuel : Nat} {next : Conn σ}
    (ran : clientIteration layer flags (fds client) fuel fresh .wouldBlock
      (server.seen client) = some (.continued next)) :
    Serialized layer flags fds commands start (events ++ [.wouldBlock client])
      (server.resumed client next) order := by
  have served := servedPrefix_seen (explained.served client)
  have below := served.below sizes
  rw [clientIteration, if_neg (by omega)] at ran
  obtain rfl : (server.seen client).grow fresh = next :=
    Iteration.continued.inj (Option.some.inj ran)
  have session : ((server.seen client).grow fresh).session =
      (server.seen client).session := Conn.grow_session fresh _
  refine ⟨explained.stored, ?_, ?_, ?_, ?_, ?_⟩
  · rw [explained.globals, Server.resumed, session]
    rfl
  · rw [List.filterMap_append, explained.others]
    exact (List.append_nil _).symm
  · intro other
    rw [bytesOf_append, bytesOf_singleton, Event.bytes, List.append_nil]
    by_cases same : other = client
    · subst same
      rw [Server.resumed_self]
      obtain ⟨done, todo, unread, split, shape, part, executed, buffered⟩ :=
        served
      exact ⟨done, todo, unread, split, shape, part,
        by rw [session]; exact executed, buffered.grow fresh⟩
    · rw [Server.resumed_of_ne _ same]
      exact explained.served other
  · intro other
    by_cases same : other = client
    · subst same
      rw [Server.resumed_self, session]
      exact explained.commands other
    · rw [Server.resumed_of_ne _ same]
      exact explained.commands other
  · intro other
    by_cases same : other = client
    · subst same
      rw [Server.resumed_self]
      obtain ⟨wbuf, emptied, sent, silent⟩ := explained.replies other
      refine ⟨?_, ?_, ?_, ?_⟩
      · rw [session]
        exact wbuf
      · rw [session]
        exact emptied
      · rw [grow_sent]
        exact sent
      · rw [grow_sent]
        exact silent
    · rw [Server.resumed_of_ne _ same]
      exact explained.replies other

/-- A change by another coroutine. -/
theorem Serialized.other (change : Globals σ → Globals σ)
    (explained : Serialized layer flags fds commands start events server
      order) :
    Serialized layer flags fds commands start (events ++ [.other change])
      { server with globals := change server.globals }
      (order ++ [.other change]) := by
  refine ⟨?_, ?_, ?_, ?_, ?_, ?_⟩
  · intro turn member
    rcases List.mem_append.mp member with old | new
    · exact explained.stored turn old
    · rw [List.mem_singleton.mp new]
      trivial
  · rw [run_append, explained.globals]
    rfl
  · rw [List.filterMap_append, List.filterMap_append, explained.others]
    rfl
  · intro client
    rw [bytesOf_append, bytesOf_singleton, Event.bytes, List.append_nil]
    exact explained.served client
  · intro client
    rw [List.filterMap_append, explained.commands]
    exact List.append_nil _
  · intro client
    rw [answersTo_append, List.flatten_append]
    have nothing : (answersTo (serveTurn layer flags fds) (Turn.isOf client)
        (run (serveTurn layer flags fds) start.globals order).1
        [.other change]).flatten = [] := rfl
    rw [nothing, List.append_nil]
    exact explained.replies client

/-- One event extends the history that explains the server. -/
theorem Serialized.step
    (sizes : ∀ client, ∀ frame ∈ commands client,
      ((respEncode frame).length : Int) ≤ maxRbufferSize)
    (explained : Serialized layer flags fds commands start events server
      order) {event : Event σ ι} {next : Server σ ι}
    (moved : Moves layer flags fds server event next)
    (initial : ∀ client, bytesOf client (events ++ [event]) <+:
      respStream (commands client)) :
    ∃ more, Serialized layer flags fds commands start (events ++ [event])
      next (order ++ more) := by
  cases moved with
  | @received client chunk fuel fresh next nonempty fits ran intact =>
      have here := initial client
      rw [bytesOf_append, bytesOf_singleton, Event.bytes, if_pos rfl] at here
      exact explained.received (sizes client) nonempty fits here ran intact
  | @wouldBlock client fuel fresh next ran =>
      refine ⟨[], ?_⟩
      rw [List.append_nil]
      exact explained.wouldBlock (sizes client) ran
  | other change => exact ⟨[.other change], explained.other change⟩

/-- A run extends the history that explains the server. -/
theorem Serialized.run
    (sizes : ∀ client, ∀ frame ∈ commands client,
      ((respEncode frame).length : Int) ≤ maxRbufferSize)
    (explained : Serialized layer flags fds commands start events server
      order) {later : List (Event σ ι)} {last : Server σ ι}
    (traced : Traced (Moves layer flags fds) server later last)
    (initial : ∀ client, bytesOf client (events ++ later) <+:
      respStream (commands client)) :
    ∃ more, Serialized layer flags fds commands start (events ++ later)
      last (order ++ more) := by
  induction traced generalizing events order with
  | nil =>
      refine ⟨[], ?_⟩
      rw [List.append_nil, List.append_nil]
      exact explained
  | @cons state next last event labels first rest induction =>
      have before : ∀ client, bytesOf client (events ++ [event]) <+:
          respStream (commands client) := by
        intro client
        have longer := initial client
        rw [List.append_cons] at longer
        exact bytesOf_front longer
      obtain ⟨more, here⟩ := explained.step sizes first before
      rw [List.append_cons] at initial
      obtain ⟨others, there⟩ := induction here initial
      refine ⟨more ++ others, ?_⟩
      rw [List.append_cons, ← List.append_assoc]
      exact there

end Serialized

/-- A server without commands of its own. -/
def idleServer : Server Unit Bool :=
  { globals := { store := (), persisted := [], repl := ReplState.initial }
    conns := fun _ => Conn.initial (fun _ => 0)
      (single { store := (), persisted := [], repl := ReplState.initial }) }

end Kivo.Net.Clients
