import Kivo.Server.Replies

/-!
# One reply for every command

A client that sends a pipeline of commands reads the replies one by one and
counts on getting one for each.  A command whose reply has no encoding shifts
all replies behind it.  This module follows a pipeline of canonical frames
through `protocol_process_stream` and shows that it stays aligned exactly when
no such command occurs in it.
-/

namespace Kivo.Server.Alignment

open Kivo.Clib.Memory
open Kivo.Clib.Numeral
open Kivo.Engine.Store
open Kivo.Resp.Frame
open Kivo.Resp.Canonical
open Kivo.Resp.Reply
open Kivo.Resp.Stream
open Kivo.Server.State
open Kivo.Server.Commands
open Kivo.Server.CommandTable
open Kivo.Server.Requests
open Kivo.Server.Handlers
open Kivo.Server.Replies

/-! ## One command -/

/-- The command leaves the client without a reply: `PING` with an empty
argument, or a command of the table that is mute. -/
def Muted (call : Call) (store : Store) (args : List Bytes) : Prop :=
  if sameName (args.getD 0 []) (ascii "PING") then
    args.length = 2 ∧ args.getD 1 [] = []
  else
    ∃ command, commandNamed (args.getD 0 []) = some command ∧
      Mute call store args command.proc

/-- The commands that answer on their own or not at all. -/
def Private (args : List Bytes) : Prop :=
  sameName (args.getD 0 []) (ascii "SYNC") = true ∨
    sameName (args.getD 0 []) (ascii "SYNC_DONE") = true ∨
    sameName (args.getD 0 []) (ascii "RDMA_CONNECT") = true

theorem silent_pingReply {mem : Bytes} {req : RespRequest}
    {args : List Bytes} (arrived : Arrived mem req args) :
    (pingReply mem req).Silent ↔
      args.length = 2 ∧ args.getD 1 [] = [] := by
  have arg : req.arg mem 1 = args.getD 1 [] := arrived.slice_eq 1
  rw [pingReply, arrived.argc]
  by_cases one : args.length = 1
  · rw [if_pos (by rw [one]; rfl)]
    exact iff_of_false (by simp [silent_plain]) (fun both => by omega)
  · rw [if_neg (by omega)]
    by_cases two : args.length = 2
    · rw [if_pos (by rw [two]; rfl), and_iff_right two, arg, kvsMallocCopy,
        RespReply.Silent]
      simp
    · rw [if_neg (by omega)]
      exact iff_of_false (by simp [silent_plain]) (fun both => two both.1)

theorem regular_pingReply {mem : Bytes} {req : RespRequest}
    {args : List Bytes} (arrived : Arrived mem req args)
    (small : (respEncode args).length < 2 ^ 31) :
    Regular (pingReply mem req) := by
  have arg : req.arg mem 1 = args.getD 1 [] := arrived.slice_eq 1
  have short := arg_length_lt args 1
  rw [pingReply, arg, arrived.lengths 1]
  split_ifs
  · exact regular_plain _
  · refine ⟨Or.inr rfl, ?_⟩
    have int : toInt32 (args.getD 1 []).length =
        (args.getD 1 []).length :=
      toInt32_of_range (by omega) (by omega)
    rw [kvsMallocCopy]
    split_ifs with empty
    · rw [empty]
      decide
    · exact int.symm
  · exact regular_plain _

/-- The reply that the business layer gives to a canonical request. -/
theorem handler_reply {mem : Bytes} {req : RespRequest} {args : List Bytes}
    (arrived : Arrived mem req args) (flags : Flags)
    {globals : Globals Store} (valid : Valid globals.store.tables)
    (cmd : Option Command) :
    Regular (kvsExecuteBatch flags globals mem req cmd).2 ∧
      ((kvsExecuteBatch flags globals mem req cmd).2.Silent ↔
        ∃ command, cmd = some command ∧
          Mute (nextCall flags globals mem req) globals.store args
            command.proc) := by
  cases cmd with
  | none =>
      refine ⟨regular_plain _, iff_of_false (by simp [kvsExecuteBatch,
        silent_plain]) ?_⟩
      rintro ⟨command, missing, _⟩
      cases missing
  | some command =>
      refine ⟨Proc.run_regular _ _ _, ?_⟩
      refine (@Proc.run_silent_iff (nextCall flags globals mem req) args
        arrived (tick globals) valid command.proc).trans ?_
      simp only [Option.some.injEq, exists_eq_left']
      cases command.proc <;> exact Iff.rfl

/-- The loop body answers a canonical frame with one reply. -/
theorem serveCommand_answer (flags : Flags) (fd : Int) {mem : Bytes}
    {address : Int} {args : List Bytes}
    (stored : Holds mem address (respEncode args))
    (small : (respEncode args).length < 2 ^ 31) (plain : ¬ Private args)
    {session : Session Store} (valid : Valid session.globals.store.tables) :
    ∃ reply,
      (serveCommand (commandLayer flags) flags fd mem address
          (respEncode args).length session).wbuf =
        packReply session.wbuf reply ∧
      Regular reply ∧
      (reply.Silent ↔
        Muted
          (nextCall flags session.globals mem
            (respUnpackNoModify mem address (respEncode args).length))
          session.globals.store args) ∧
      Valid (serveCommand (commandLayer flags) flags fd mem address
        (respEncode args).length session).globals.store.tables := by
  have arrived := arrived_encode stored small
  by_cases ping : sameName (args.getD 0 []) (ascii "PING") = true
  · have named := arrived.requestIs_eq (show ascii "PING" ≠ [] by decide)
    rw [ping] at named
    rw [serveCommand, Muted, if_pos ping]
    dsimp only
    rw [if_pos named]
    exact ⟨_, rfl, regular_pingReply arrived small, silent_pingReply arrived,
      valid⟩
  · rw [Bool.not_eq_true] at ping
    have other : (flags.enableReplMaster &&
        sameName (args.getD 0 []) (ascii "RDMA_CONNECT")) = false := by
      rw [Bool.and_eq_false_iff]
      refine Or.inr (Bool.eq_false_iff.mpr ?_)
      exact fun same => plain (Or.inr (Or.inr same))
    rw [serveCommand_encode flags fd stored small ping other, Muted,
      if_neg (by rw [ping]; exact Bool.false_ne_true)]
    generalize respUnpackNoModify mem address (respEncode args).length = req
      at arrived ⊢
    have ready : Valid
        (prepared flags fd mem req args session.globals).store.tables := by
      rw [prepared_store]
      exact valid
    obtain ⟨regular, silent⟩ := handler_reply arrived flags ready
      (commandNamed (args.getD 0 []))
    rw [nextCall, prepared_store] at silent
    exact ⟨_, rfl, regular, silent, kvsExecuteBatch_valid ready _ _ _ _⟩

/-! ## Pipelines -/

/-- The session after the first commands of a pipeline. -/
def sessionAfter (flags : Flags) (fd : Int) (mem : Bytes) (inBuf : Int)
    (commands : List (List Bytes)) (session : Session Store)
    (count : Nat) : Session Store :=
  runWindows (serveCommand (commandLayer flags) flags fd mem)
    (frameWindows inBuf (commands.take count)) session

/-- The command of this number in a pipeline leaves the client without a reply,
in the session that it meets. -/
def MutedAt (flags : Flags) (mem : Bytes) (inBuf : Int)
    (commands : List (List Bytes)) (session : Session Store)
    (index : Nat) : Prop :=
  let args := commands.getD index []
  let address := inBuf + (respStream (commands.take index)).length
  let req := respUnpackNoModify mem address (respEncode args).length
  Muted (nextCall flags session.globals mem req) session.globals.store args

/-- The bytes in the write buffer. -/
def written (session : Session Store) : Bytes :=
  (session.wbuf.map WriteBuffer.bytes).getD []

/--
The pipeline is answered command by command: the call takes all of it, and
there are as many well-formed replies as commands such that after any number
of commands the write buffer holds their replies behind what it held before.
The write buffer counts its bytes and was not overrun.
-/
structure Aligned (flags : Flags) (fd : Int) (mem : Bytes) (inBuf : Int)
    (commands : List (List Bytes)) (session : Session Store) : Prop where
  ends : ∃ fuel,
    protocolProcessStream (commandLayer flags) flags fd fuel mem inBuf
        (respStream commands).length session =
      some
        { status := 0
          parsed := some (respStream commands).length
          session := sessionAfter flags fd mem inBuf commands session
            commands.length }
  replies : ∃ replies : List Bytes,
    replies.length = commands.length ∧
      (∀ reply ∈ replies, IsRespReply reply) ∧
      ∀ count ≤ commands.length,
        written (sessionAfter flags fd mem inBuf commands session count) =
          written session ++ (replies.take count).flatten
  inside : ∃ wbuf,
    (sessionAfter flags fd mem inBuf commands session
        commands.length).wbuf = some wbuf ∧
      Sound wbuf

theorem frameWindows_append (address : Int)
    (first second : List (List Bytes)) :
    frameWindows address (first ++ second) =
      frameWindows address first ++
        frameWindows (address + (respStream first).length) second := by
  induction first generalizing address with
  | nil => simp [frameWindows, respStream]
  | cons command first induction =>
      rw [List.cons_append, frameWindows, frameWindows, induction,
        List.cons_append, respStream_cons, List.length_append]
      congr 3
      push_cast
      ring

section Pipeline

variable {flags : Flags} {fd : Int} {mem : Bytes} {inBuf : Int}
  {commands : List (List Bytes)} {session : Session Store}

theorem sessionAfter_succ {count : Nat} (inside : count < commands.length) :
    sessionAfter flags fd mem inBuf commands session (count + 1) =
      serveCommand (commandLayer flags) flags fd mem
        (inBuf + (respStream (commands.take count)).length)
        (respEncode commands[count]).length
        (sessionAfter flags fd mem inBuf commands session count) := by
  rw [sessionAfter, sessionAfter, ← List.take_append_getElem inside,
    frameWindows_append, runWindows, List.foldl_append]
  rfl

theorem holds_command (stored : Holds mem inBuf (respStream commands))
    {count : Nat} (inside : count < commands.length) :
    Holds mem (inBuf + (respStream (commands.take count)).length)
      (respEncode commands[count]) := by
  rw [← List.take_append_drop count commands,
    List.drop_eq_getElem_cons inside, respStream_append,
    respStream_cons] at stored
  exact stored.right.left

theorem command_small (small : (respStream commands).length < 2 ^ 31)
    {count : Nat} (inside : count < commands.length) :
    (respEncode commands[count]).length < 2 ^ 31 := by
  rw [← List.take_append_drop count commands,
    List.drop_eq_getElem_cons inside, respStream_append, respStream_cons,
    List.length_append, List.length_append] at small
  omega

section Canonical

variable (stored : Holds mem inBuf (respStream commands))
  (small : (respStream commands).length < 2 ^ 31)
  (plain : ∀ args ∈ commands, ¬ Private args)
  (valid : Valid session.globals.store.tables)

include stored small plain valid

theorem sessionAfter_valid {count : Nat} (inside : count ≤ commands.length) :
    Valid (sessionAfter flags fd mem inBuf commands session
      count).globals.store.tables := by
  induction count with
  | zero => exact valid
  | succ count induction =>
      rw [sessionAfter_succ inside]
      obtain ⟨_, _, _, _, after⟩ := serveCommand_answer flags fd
        (holds_command stored inside) (command_small small inside)
        (plain _ (List.getElem_mem inside))
        (induction (Nat.le_of_lt inside))
      exact after

/-- What the next command of the pipeline adds to the write buffer. -/
theorem sessionAfter_answer {count : Nat}
    (inside : count < commands.length) :
    ∃ reply,
      (sessionAfter flags fd mem inBuf commands session (count + 1)).wbuf =
        packReply
          (sessionAfter flags fd mem inBuf commands session count).wbuf
          reply ∧
      Regular reply ∧
      (reply.Silent ↔
        MutedAt flags mem inBuf commands
          (sessionAfter flags fd mem inBuf commands session count)
          count) := by
  rw [sessionAfter_succ inside, MutedAt, List.getD_eq_getElem _ _ inside]
  obtain ⟨reply, packed, regular, silent, _⟩ := serveCommand_answer flags
    fd (holds_command stored inside) (command_small small inside)
    (plain _ (List.getElem_mem inside))
    (sessionAfter_valid stored small plain valid (Nat.le_of_lt inside))
  exact ⟨reply, packed, regular, silent⟩

section Client

variable {wbuf : WriteBuffer} (client : session.wbuf = some wbuf)

include client

theorem sessionAfter_open {count : Nat} (inside : count ≤ commands.length) :
    ∃ after,
      (sessionAfter flags fd mem inBuf commands session count).wbuf =
        some after := by
  induction count with
  | zero => exact ⟨wbuf, client⟩
  | succ count induction =>
      obtain ⟨before, opened⟩ := induction (Nat.le_of_lt inside)
      obtain ⟨reply, packed, _⟩ :=
        sessionAfter_answer stored small plain valid inside
      rw [opened] at packed
      exact ⟨_, packed⟩

/-- The next command appends its packed reply. -/
theorem sessionAfter_written {count : Nat}
    (inside : count < commands.length) :
    ∃ reply,
      written (sessionAfter flags fd mem inBuf commands session
          (count + 1)) =
        written (sessionAfter flags fd mem inBuf commands session count) ++
          respPack reply ∧
      Regular reply ∧
      (reply.Silent ↔
        MutedAt flags mem inBuf commands
          (sessionAfter flags fd mem inBuf commands session count)
          count) := by
  obtain ⟨before, opened⟩ := sessionAfter_open stored small plain valid
    client (Nat.le_of_lt inside)
  obtain ⟨reply, packed, regular, silent⟩ :=
    sessionAfter_answer stored small plain valid inside
  refine ⟨reply, ?_, regular, silent⟩
  rw [written, written, packed, opened]
  rfl

theorem written_mono {first second : Nat} (before : first ≤ second)
    (inside : second ≤ commands.length) :
    (written (sessionAfter flags fd mem inBuf commands session
        first)).length ≤
      (written (sessionAfter flags fd mem inBuf commands session
        second)).length := by
  induction second, before using Nat.le_induction with
  | base => exact Nat.le_refl _
  | succ second before induction =>
      obtain ⟨reply, appended, _⟩ :=
        sessionAfter_written stored small plain valid client inside
      rw [appended, List.length_append]
      exact (induction (Nat.le_of_lt inside)).trans (Nat.le_add_right _ _)

/-- The write buffer stays sound while an `int` can count it. -/
theorem sessionAfter_sound (sound : Sound wbuf)
    (room : (written (sessionAfter flags fd mem inBuf commands session
      commands.length)).length + 1024 < 2 ^ 31)
    {count : Nat} (inside : count ≤ commands.length) :
    ∃ after,
      (sessionAfter flags fd mem inBuf commands session count).wbuf =
        some after ∧ Sound after := by
  induction count with
  | zero => exact ⟨wbuf, client, sound⟩
  | succ count induction =>
      obtain ⟨before, opened, fine⟩ := induction (Nat.le_of_lt inside)
      obtain ⟨reply, packed, regular, _⟩ :=
        sessionAfter_answer stored small plain valid inside
      have later := @written_mono flags fd _ _ _ _ stored small plain valid
        _ client _ _ inside (Nat.le_refl commands.length)
      rw [opened] at packed
      refine ⟨_, packed, fine.pack regular ?_⟩
      rw [written, packed] at later
      exact lt_of_le_of_lt (Nat.add_le_add_right later 1024) room

end Client

end Canonical

/-- The call takes the whole pipeline. -/
theorem protocolProcessStream_pipeline
    (stored : Holds mem inBuf (respStream commands))
    (small : (respStream commands).length < 2 ^ 31) :
    ∃ fuel,
      protocolProcessStream (commandLayer flags) flags fd fuel mem inBuf
          (respStream commands).length session =
        some
          { status := 0
            parsed := some (respStream commands).length
            session := sessionAfter flags fd mem inBuf commands session
              commands.length } := by
  refine ⟨commands.length + 1, ?_⟩
  rw [sessionAfter, List.take_length]
  exact protocolProcessStream_canonical _ flags fd session stored small
    (Nat.lt_succ_self _)

/-- A mute command in the pipeline leaves a client with a reply too few. -/
theorem not_aligned_of_muted
    (stored : Holds mem inBuf (respStream commands))
    (small : (respStream commands).length < 2 ^ 31)
    (plain : ∀ args ∈ commands, ¬ Private args)
    (valid : Valid session.globals.store.tables)
    {wbuf : WriteBuffer} (client : session.wbuf = some wbuf)
    {index : Nat} (inside : index < commands.length)
    (muted : MutedAt flags mem inBuf commands
      (sessionAfter flags fd mem inBuf commands session index) index) :
    ¬ Aligned flags fd mem inBuf commands session := by
  rintro ⟨_, ⟨replies, length, proper, held⟩, _⟩
  obtain ⟨reply, appended, -, silent⟩ :=
    sessionAfter_written stored small plain valid client inside
  have within : index < replies.length := by rw [length]; exact inside
  rw [(respPack_silent_iff reply).mpr (silent.mpr muted), List.append_nil,
    held _ inside, held _ (Nat.le_of_lt inside),
    ← List.take_append_getElem within, List.flatten_append,
    ← List.append_assoc] at appended
  have nothing := List.append_right_eq_self.mp appended
  rw [List.flatten_singleton] at nothing
  exact (proper _ (List.getElem_mem within)).ne_nil nothing

/-- Commands that are not mute are answered one by one. -/
theorem exists_replies (stored : Holds mem inBuf (respStream commands))
    (small : (respStream commands).length < 2 ^ 31)
    (plain : ∀ args ∈ commands, ¬ Private args)
    (valid : Valid session.globals.store.tables)
    {wbuf : WriteBuffer} (client : session.wbuf = some wbuf)
    (room : (written (sessionAfter flags fd mem inBuf commands session
      commands.length)).length + 1024 < 2 ^ 31)
    (audible : ∀ index < commands.length,
      ¬ MutedAt flags mem inBuf commands
        (sessionAfter flags fd mem inBuf commands session index) index)
    {total : Nat} (within : total ≤ commands.length) :
    ∃ replies : List Bytes,
      replies.length = total ∧
        (∀ reply ∈ replies, IsRespReply reply) ∧
        ∀ count ≤ total,
          written (sessionAfter flags fd mem inBuf commands session count) =
            written session ++ (replies.take count).flatten := by
  induction total with
  | zero =>
      refine ⟨[], rfl, fun reply member => absurd member List.not_mem_nil, ?_⟩
      intro count none
      rw [Nat.le_zero.mp none]
      exact (List.append_nil _).symm
  | succ total induction =>
      obtain ⟨replies, length, proper, held⟩ :=
        induction (Nat.le_of_lt within)
      obtain ⟨reply, appended, regular, silent⟩ :=
        @sessionAfter_written flags fd _ _ _ _ stored small plain valid _
          client _ within
      have fits := @written_mono flags fd _ _ _ _ stored small plain valid
        _ client _ _ within (Nat.le_refl commands.length)
      rw [appended, List.length_append] at fits
      have nonneg : 0 ≤ reply.bodyLen := by
        by_contra negative
        have large := regular.large_of_negative (Int.not_le.mp negative)
        omega
      refine ⟨replies ++ [respPack reply], ?_, ?_, ?_⟩
      · rw [List.length_append, length]
        rfl
      · intro other member
        rcases List.mem_append.mp member with old | new
        · exact proper other old
        · rw [List.mem_singleton.mp new]
          exact isRespReply_respPack
            (fun nothing => audible total within (silent.mp nothing))
            (fun runaway => Int.not_lt.mpr nonneg runaway.2.2)
            (regular.most nonneg)
      · intro count before
        rcases Nat.lt_or_ge total count with last | early
        · have all : count = total + 1 := Nat.le_antisymm before last
          subst all
          rw [appended, held total (Nat.le_refl total), List.take_of_length_le
            (by rw [length]), List.take_of_length_le (by simp [length]),
            List.flatten_append, List.flatten_singleton, List.append_assoc]
        · rw [held count early, List.take_append_of_le_length
            (by rw [length]; exact early)]

/--
A pipeline of canonical frames on a client connection is answered command by
command exactly when none of its commands is mute in the store it meets.  The
frames carry none of the commands that answer on their own, the tables are
consistent, and an `int` can count the replies together with the slack that
`resp_pack_with_realloc` asks for.
-/
theorem pipeline_aligned_iff
    (stored : Holds mem inBuf (respStream commands))
    (small : (respStream commands).length < 2 ^ 31)
    (plain : ∀ args ∈ commands, ¬ Private args)
    (valid : Valid session.globals.store.tables)
    {wbuf : WriteBuffer} (client : session.wbuf = some wbuf)
    (sound : Sound wbuf)
    (room : (written (sessionAfter flags fd mem inBuf commands session
      commands.length)).length + 1024 < 2 ^ 31) :
    Aligned flags fd mem inBuf commands session ↔
      ∀ index < commands.length,
        ¬ MutedAt flags mem inBuf commands
          (sessionAfter flags fd mem inBuf commands session index)
          index := by
  constructor
  · intro aligned index inside muted
    exact not_aligned_of_muted stored small plain valid client inside muted
      aligned
  · intro audible
    exact ⟨protocolProcessStream_pipeline stored small,
      exists_replies stored small plain valid client room audible
        (Nat.le_refl _),
      sessionAfter_sound stored small plain valid client sound room
        (Nat.le_refl _)⟩

end Pipeline

/-- A connection to a fresh server, with an empty write buffer. -/
def freshSession (worlds : Nat → World) : Session Store :=
  { globals :=
      { store := Store.create worlds
        persisted := []
        repl := ReplState.initial }
    wbuf := some { bytes := [], wcap := 0, wlen := 0, overrun := false }
    executed := [] }

/-- A server without TTL, replication and persistence. -/
def plainFlags : Flags :=
  { enablePersistence := false
    enableTtl := false
    enableReplMaster := false
    enableReplSlave := false
    useTcpSync := false }

/-- `GET k` and `PING` to a fresh server. -/
theorem pipeline_aligned_get_ping :
    Aligned plainFlags 7
      (respStream [[ascii "GET", ascii "k"], [ascii "PING"]]) 0
      [[ascii "GET", ascii "k"], [ascii "PING"]]
      (freshSession (fun _ => default)) := by
  refine (pipeline_aligned_iff ⟨Int.le_refl 0, List.prefix_rfl⟩
    (by decide +kernel) ?_ valid_create rfl ⟨rfl, rfl⟩
    (by decide +kernel)).mpr ?_
  · intro args member
    simp only [List.mem_cons, List.not_mem_nil, or_false] at member
    rcases member with rfl | rfl
    · rw [Private]
      decide
    · rw [Private]
      decide
  · intro index inside
    match index, inside with
    | 0, _ =>
        rw [MutedAt]
        change ¬ Muted _ _ [ascii "GET", ascii "k"]
        rw [Muted, if_neg (by decide)]
        rintro ⟨command, found, mute⟩
        have named : commandNamed (ascii "GET") =
            some ⟨ascii "GET", .arrayGet⟩ := by
          decide +kernel
        cases found.symm.trans named
        exact mute
    | 1, _ =>
        rw [MutedAt]
        change ¬ Muted _ _ [ascii "PING"]
        rw [Muted, if_pos (by decide)]
        decide

/-- `SETIDX k` with an empty id gets no reply at all. -/
theorem pipeline_setidx_empty :
    Holds (respStream [[ascii "SETIDX", ascii "k", []]]) 0
        (respStream [[ascii "SETIDX", ascii "k", []]]) ∧
      (∀ args ∈ [[ascii "SETIDX", ascii "k", []]], ¬ Private args) ∧
      ¬ Aligned plainFlags 7
        (respStream [[ascii "SETIDX", ascii "k", []]]) 0
        [[ascii "SETIDX", ascii "k", []]]
        (freshSession (fun _ => default)) := by
  have stored : Holds (respStream [[ascii "SETIDX", ascii "k", []]]) 0
      (respStream [[ascii "SETIDX", ascii "k", []]]) :=
    ⟨Int.le_refl 0, List.prefix_rfl⟩
  have plain : ∀ args ∈ [[ascii "SETIDX", ascii "k", []]],
      ¬ Private args := by
    intro args member
    rw [List.mem_singleton.mp member, Private]
    decide
  refine ⟨stored, plain, ?_⟩
  refine @not_aligned_of_muted _ _ _ _ _ _ stored (by decide +kernel) plain
    valid_create _ rfl 0 (by decide) ?_
  have named : commandNamed (ascii "SETIDX") =
      some ⟨ascii "SETIDX", .setidx⟩ := by
    decide +kernel
  change Muted _ _ [ascii "SETIDX", ascii "k", []]
  rw [Muted, if_neg (by decide)]
  exact ⟨_, named, rfl, Or.inl rfl⟩

end Kivo.Server.Alignment
