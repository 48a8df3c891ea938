import Kivo.Persistence.Log
import Kivo.Resp.WalkSafety

/-!
# Recovery, append, recovery

A crash can leave the beginning of a frame at the end of the append-only file.
`kvs_persistence_recover` stops in front of it, but keeps it: the offset is
set to the file size, and the file is reopened for appending.  What is logged
afterwards lies behind the torn bytes, and the next recovery reads both as one
frame.

This module follows a file through the first recovery, any run of the
buffered log and the second recovery.
-/

namespace Kivo.Persistence.Recovery

open Kivo.Clib.Memory
open Kivo.Clib.Numeral
open Kivo.Resp.Frame
open Kivo.Resp.Canonical
open Kivo.Resp.Reply
open Kivo.Resp.Stream
open Kivo.Resp.WalkSafety
open Kivo.Server.State
open Kivo.Persistence.Log

/-! ## Recovery of a readable file -/

theorem respStream_eq_nil {commands : List (List Bytes)}
    (empty : (respStream commands).length = 0) : commands = [] := by
  cases commands with
  | nil => rfl
  | cons command commands =>
      have minimum := respEncode_length_ge command
      rw [respStream_cons, List.length_append] at empty
      omega

/-- A file is replayed frame by frame as far as its size, as an `int`, reaches;
a frame that ends beyond is not executed. -/
theorem kvsPersistenceRecover_runs {κ σ : Type}
    (layer : CommandLayer κ σ) (session : Session σ)
    {a : Aof} {commands : List (List Bytes)} {short : Bytes} {fuel : Nat}
    (content : respStream commands ++ short <+: a.file)
    (torn : TornTail short)
    (window : toInt32 a.file.length =
      ((respStream commands ++ short).length : Int))
    (enough : commands.length < fuel) :
    ∃ next,
      kvsPersistenceRecover layer fuel a session =
          some (next, runWindows (replayCommand layer a.file)
            (frameWindows 0 commands) session) ∧
        next.file = a.file := by
  by_cases empty : (respStream commands ++ short).length = 0
  · have none : commands = [] := by
      apply respStream_eq_nil
      rw [List.length_append] at empty
      omega
    subst none
    by_cases fresh : a.file.length = 0
    · refine ⟨{ a with fd := if a.fd = .closed then .readOnly else a.fd }, ?_,
        rfl⟩
      rw [kvsPersistenceRecover, if_pos fresh]
      rfl
    · refine ⟨{ a with fd := .append, offset := a.file.length }, ?_, rfl⟩
      rw [kvsPersistenceRecover, if_neg fresh, protocolProcessRecover,
        if_pos (by omega)]
      rfl
  · have fileSize : a.file.length ≠ 0 := by
      have longer := content.length_le
      omega
    have stored : Holds a.file (0 + 0) (respStream commands ++ short) :=
      ⟨le_rfl, content⟩
    have bounds := toInt32_bounds (a.file.length : Int)
    have loop := frameLoop_canonical (recoverCommand_canonical layer) session
      stored torn (window ▸ Int.zero_add _) le_rfl bounds.2 enough
    refine ⟨{ a with fd := .append, offset := a.file.length }, ?_, rfl⟩
    rw [kvsPersistenceRecover, if_neg fileSize, protocolProcessRecover,
      if_neg (by omega), loop]
    rfl

/-- What is executed of a file that is read as far as its size, as an `int`,
reaches. -/
theorem kvsPersistenceRecover_window {κ σ : Type}
    (layer : CommandLayer κ σ) (session : Session σ)
    {a : Aof} {commands : List (List Bytes)} {short : Bytes}
    (content : respStream commands ++ short <+: a.file)
    (torn : TornTail short)
    (window : toInt32 a.file.length =
      ((respStream commands ++ short).length : Int)) :
    ∃ fuel next final,
      kvsPersistenceRecover layer fuel a session = some (next, final) ∧
        next.file = a.file ∧
        final.executed = session.executed ++ commands := by
  obtain ⟨next, ended, file⟩ := kvsPersistenceRecover_runs layer session
    content torn window (Nat.lt_succ_self commands.length)
  have stored : Holds a.file 0 (respStream commands ++ short) :=
    ⟨le_rfl, content⟩
  have bounds := toInt32_bounds (a.file.length : Int)
  have executed := runWindows_executed (replayCommand_executed layer a.file)
    stored.left (by
      rw [List.length_append] at window
      omega) session
  exact ⟨_, next, _, ended, file, executed⟩

/-- A file of complete frames and a torn tail is replayed frame by frame. -/
theorem kvsPersistenceRecover_canonical {κ σ : Type}
    (layer : CommandLayer κ σ) (session : Session σ)
    {a : Aof} {commands : List (List Bytes)} {short : Bytes}
    (content : a.file = respStream commands ++ short)
    (torn : TornTail short) (small : a.file.length < 2 ^ 31) :
    ∃ fuel next final,
      kvsPersistenceRecover layer fuel a session = some (next, final) ∧
        next.file = a.file ∧
        final.executed = session.executed ++ commands := by
  apply kvsPersistenceRecover_window layer session (content ▸ List.prefix_rfl)
    torn
  rw [← content]
  exact toInt32_of_range (by omega) (by omega)

/-! ## A run that flushes -/

/-- A log that is open and has nothing pending. -/
structure Quiet (a : Aof) : Prop where
  opened : a.fd = .append
  flushed : a.Flushed
  ring : RingOk a

/-- Log one frame and flush it. -/
theorem exists_flushed_write {a : Aof} (quiet : Quiet a) {frame : Bytes}
    (nonempty : frame ≠ []) (fits : frame.length ≤ aofBufSize) :
    ∃ b, a.run [.write [] frame, .forceFlush true true 0, .kernel,
        .forceFlush true true 0] = some b ∧ Quiet b := by
  obtain ⟨fd, ⟨active, busy⟩, ring⟩ := quiet
  obtain ⟨submitted, completions⟩ := ring.idle busy
  have positive : 0 < frame.length := List.length_pos_of_ne_nil nonempty
  have write : a.step (.write [] frame) =
      some { a with active := frame } := by
    have large : ¬ frame.length > aofBufSize := by omega
    have closed : ¬ (a.fd = .closed ∨ frame.length = 0) := by
      rw [fd]
      simpa using nonempty
    rw [Aof.step, kvsPersistenceWrite, if_neg closed, if_neg large,
      Aof.waitForRoom, active, if_neg (by simpa using large), Option.map_some,
      active]
    rfl
  have submit : ({ a with active := frame } : Aof).step
      (.forceFlush true true 0) =
      some { a with
        active := []
        flush := frame
        busy := true
        offset := a.offset + frame.length
        submitted := some frame
        lastFlushMs := 0 } := by
    simp [Aof.step, kvsPersistenceForceFlush, aofCheckCqeNonblock,
      aofTriggerFlushNolock, fd, busy, positive, nonempty]
  refine ⟨{ a with
    file := a.file ++ frame
    flush := []
    offset := a.offset + frame.length
    lastFlushMs := 0 }, ?_, fd, ⟨active, busy⟩,
    fun _ => ⟨submitted, completions⟩, fun other => ?_⟩
  · rw [Aof.run, write, Option.bind_some, Aof.run, submit, Option.bind_some]
    simp [Aof.run, Aof.step, Aof.kernelWrite, kvsPersistenceForceFlush,
      aofCheckCqeNonblock, aofMinFlushSize, Aof.reap, fd, active, busy,
      submitted, completions]
  · have still : a.busy = true := other
    rw [busy] at still
    cases still

/-- Every list of frames can be logged and flushed completely. -/
theorem exists_flushed_run {a : Aof} (quiet : Quiet a)
    {frames : List Bytes}
    (fits : ∀ frame ∈ frames, frame ≠ [] ∧ frame.length ≤ aofBufSize) :
    ∃ events b, writtenFrames events = frames ∧ a.run events = some b ∧
      Quiet b := by
  induction frames generalizing a with
  | nil => exact ⟨[], a, rfl, rfl, quiet⟩
  | cons frame frames induction =>
      obtain ⟨nonempty, small⟩ := fits frame (by simp)
      obtain ⟨b, run, next⟩ := exists_flushed_write quiet nonempty small
      obtain ⟨events, c, written, rest, final⟩ := induction next
        (fun other member => fits other (by simp [member]))
      refine ⟨[.write [] frame, .forceFlush true true 0, .kernel,
        .forceFlush true true 0] ++ events, c, ?_, ?_, final⟩
      · simpa [writtenFrames, AofEvent.written] using written
      · have split : ∀ (first second : List AofEvent) (start : Aof),
            start.run (first ++ second) =
              (start.run first).bind (Aof.run second) := by
          intro first second
          induction first with
          | nil => exact fun start => rfl
          | cons event first step =>
              intro start
              rw [List.cons_append, Aof.run, Aof.run, Option.bind_assoc]
              congr 1
              funext next
              exact step next
        rw [split, run]
        exact rest

/-! ## Torn bytes in front of a frame -/

theorem unpackArguments_length_le (mem : Bytes) (buf bufLen : Int)
    (count : Nat) (p : Int) :
    (unpackArguments mem buf bufLen count p).1.length ≤ count := by
  cases finished : (unpackArguments mem buf bufLen count p).2 with
  | false => exact (unpackArguments_interrupted finished).le
  | true =>
      clear finished
      induction count generalizing p with
      | zero => simp [unpackArguments]
      | succ count induction =>
          rw [unpackArguments]
          split
          · simp
          · simp only [List.length_cons]
            exact Nat.succ_le_succ (induction _)

/-- The argument slices of a request as one list of entries. -/
theorem respUnpackNoModify_args_of_found {mem : Bytes} {buf bufLen crlf : Int}
    (found : findCrlf mem buf bufLen = some crlf) :
    (respUnpackNoModify mem buf bufLen).args mem =
      (unpackArguments mem buf bufLen (declaredCount mem buf).toNat
        (crlf + 2)).1.map (fun entry => slice mem entry.1 entry.2) := by
  rw [respUnpackNoModify, found]
  dsimp only
  rw [RespRequest.args, List.zipWith_map_left, List.zipWith_map_right,
    List.zipWith_self]
  rfl

theorem respUnpackNoModify_args_of_unended {mem : Bytes} {buf bufLen : Int}
    (unended : findCrlf mem buf bufLen = none) :
    (respUnpackNoModify mem buf bufLen).args mem = [] := by
  rw [respUnpackNoModify, unended]
  rfl

/-- Unpacking never yields more arguments than the first line declares. -/
theorem args_length_le (mem : Bytes) (buf bufLen : Int) :
    ((respUnpackNoModify mem buf bufLen).args mem).length ≤
      (declaredCount mem buf).toNat := by
  cases found : findCrlf mem buf bufLen with
  | none =>
      rw [respUnpackNoModify_args_of_unended found]
      exact Nat.zero_le _
  | some crlf =>
      rw [respUnpackNoModify_args_of_found found, List.length_map]
      exact unpackArguments_length_le _ _ _ _ _

/--
The first argument of an accepted window is as long as the first `$` line
says.
-/
theorem args_head_length {mem : Bytes} {buf bufLen length crlf : Int}
    (accepted : hasCompleteRespCommand mem buf bufLen = some length)
    (found : findCrlf mem buf bufLen = some crlf)
    (positive : 0 < (declaredCount mem buf).toNat)
    {first : Bytes} {others : List Bytes}
    (decoded : (respUnpackNoModify mem buf length).args mem =
      first :: others) :
    first.length = (atoi (bytesFrom mem (crlf + 2 + 1))).toNat := by
  obtain ⟨crlf', last, -, -, found', walked, -⟩ :=
    hasCompleteRespCommand_some accepted
  obtain rfl := findCrlf_unique found found'
  obtain ⟨count, shape⟩ := Nat.exists_eq_add_of_lt positive
  rw [Nat.zero_add] at shape
  rw [shape] at walked
  obtain ⟨line, -, -, lineFound, -, carriage, -, -⟩ :=
    walkArguments_succ walked
  have inside := byteAt_ne_zero_bounds
    (show byteAt mem (line + 2 + atoi (bytesFrom mem (crlf + 2 + 1))) ≠ 0 by
      rw [carriage]; decide)
  have lower := (findCrlf_some lineFound).1
  cases refound : findCrlf mem buf length with
  | none =>
      rw [respUnpackNoModify_args_of_unended refound] at decoded
      cases decoded
  | some crlf' =>
      obtain rfl := findCrlf_unique found refound
      rw [respUnpackNoModify_args_of_found refound, shape,
        unpackArguments] at decoded
      cases refoundLine : findCrlf mem (crlf + 2)
          (toInt32 (length - (crlf + 2 - buf))) with
      | none =>
          rw [refoundLine] at decoded
          cases decoded
      | some line' =>
          obtain rfl := findCrlf_unique lineFound refoundLine
          rw [refoundLine] at decoded
          simp only [List.map_cons, List.cons.injEq] at decoded
          have available : (bytesFrom mem (line + 2)).length =
              mem.length - (line + 2).toNat := by
            rw [bytesFrom, List.length_drop]
          rw [← decoded.1, slice, List.length_take, available]
          have start : 0 ≤ line + 2 := by
            have mark := byteAt_ne_zero_bounds
              (show byteAt mem line ≠ 0 by
                rw [(findCrlf_some lineFound).2.2.1]; decide)
            omega
          omega

/-- Behind a torn header line the header of the next frame ends the line. -/
theorem findCrlf_torn_header {short : Bytes}
    (unended : crlfIndex short = none) (command : List Bytes) :
    findCrlf (short ++ respEncode command) 0
        (short ++ respEncode command).length =
      some ((short.length + (1 + (decimal command.length).length) : Nat) :
        Int) := by
  rw [findCrlf_of_holds (holds_self _), respEncode, respHeader_eq_line]
  rw [show (42 :: decimal command.length) ++ 13 :: 10 :: respBulks command =
    42 :: (decimal command.length ++ 13 :: 10 :: respBulks command) from rfl,
    crlfIndex_skip unended (by decide)]
  have line := crlfIndex_line
    (cr_not_mem_line 42 (by decide) command.length) (respBulks command)
  rw [List.cons_append] at line
  rw [line]
  simp only [Option.map_some, List.length_cons]
  congr 1
  push_cast
  ring

/--
A torn header line that declares more than one argument swallows the header
of a frame with one argument, and then waits for the others.
-/
theorem torn_header_waits {number : Bytes}
    (unended : crlfIndex (42 :: number) = none)
    (small : number.length < 2 ^ 30)
    (many : 1 < (declaredCount ((42 :: number) ++ respEncode [[97]]) 0).toNat) :
    hasCompleteRespCommand ((42 :: number) ++ respEncode [[97]]) 0
      ((42 :: number) ++ respEncode [[97]]).length = none := by
  rw [← Option.not_isSome_iff_eq_none]
  intro some
  obtain ⟨length, accepted⟩ := Option.isSome_iff_exists.mp some
  obtain ⟨crlf, last, -, -, found, walked, -⟩ :=
    hasCompleteRespCommand_some accepted
  rw [findCrlf_torn_header unended [[97]]] at found
  cases found
  obtain ⟨count, shape⟩ := Nat.exists_eq_add_of_lt many
  have header : (respHeader 1).length = 4 := by decide
  have bulk : (respBulk [97]).length = 7 := by decide
  have digits : (decimal [[(97 : UInt8)]].length).length = 1 := by decide
  have split : (42 :: number) ++ respEncode [[97]] =
      ((42 :: number) ++ respHeader 1) ++ (respBulk [97] ++ []) := by
    simp [respEncode, respBulks]
  have address : (((42 :: number).length +
      (1 + (decimal [[(97 : UInt8)]].length).length) : Nat) : Int) + 2 =
      (((42 :: number) ++ respHeader 1).length : Nat) := by
    rw [digits, List.length_append, header]
    push_cast
    ring
  have stored : Holds ((42 :: number) ++ respEncode [[97]])
      (((42 :: number) ++ respHeader 1).length : Nat)
      (respBulk [97] ++ []) := by
    have view := Holds.of_append ((42 :: number) ++ respHeader 1)
      (respBulk [97] ++ []) []
    rw [List.append_nil, ← split] at view
    exact view
  have total : (((42 :: number) ++ respEncode [[97]]).length : Int) =
      number.length + 12 := by
    rw [split]
    simp only [List.length_append, List.length_cons, header, bulk,
      List.length_nil]
    push_cast
    ring
  have front : ((((42 :: number) ++ respHeader 1).length : Nat) : Int) =
      number.length + 5 := by
    simp only [List.length_append, List.length_cons, header]
    push_cast
    ring
  rw [shape, address, walkArguments_bulk stored (by omega) (by
    rw [total, front, List.append_nil, bulk]
    push_cast
    ring) (by rw [total]; omega)] at walked
  rw [Nat.add_comm 1 count] at walked
  obtain ⟨-, inside, -⟩ := walkArguments_succ walked
  rw [total, front, bulk] at inside
  push_cast at inside
  omega

/--
Behind a complete header line the length of the first argument is read from
the torn bytes alone.
-/
theorem torn_body_misread {count : Nat} {tail : Bytes}
    (positive : 0 < count) (small : count < 2 ^ 31)
    (mark : ∀ byte rest, tail = byte :: rest → byte = 36) :
    ∃ command, (respEncode command).length ≤ 64 ∧
      ∀ length,
        let mem := ((42 :: decimal count) ++ 13 :: 10 :: tail) ++
          respEncode command
        hasCompleteRespCommand mem 0 mem.length = some length →
          (respUnpackNoModify mem 0 length).args mem ≠ command := by
  have header : ∀ command : List Bytes,
      let mem := ((42 :: decimal count) ++ 13 :: 10 :: tail) ++
        respEncode command
      findCrlf mem 0 mem.length =
          some ((1 + (decimal count).length : Nat) : Int) ∧
        declaredCount mem 0 = count := by
    intro command
    have read := headerLine_read (by decide) small
      (holds_self ((42 :: decimal count) ++
        13 :: 10 :: (tail ++ respEncode command)))
    rw [Int.zero_add] at read
    simpa [declaredCount] using read
  have behind : ∀ command : List Bytes,
      bytesFrom (((42 :: decimal count) ++ 13 :: 10 :: tail) ++
          respEncode command)
          (((1 + (decimal count).length : Nat) : Int) + 2) =
        tail ++ respEncode command := by
    intro command
    have view := bytesFrom_append ((42 :: decimal count) ++ [13, 10])
      (tail ++ respEncode command) 0
    have length : (((42 :: decimal count) ++ [13, 10]).length : Int) +
        (0 : Nat) = ((1 + (decimal count).length : Nat) : Int) + 2 := by
      simp only [List.length_append, List.length_cons, List.length_nil]
      push_cast
      ring
    rw [length] at view
    simpa using view
  cases tail with
  | nil =>
      refine ⟨[[97]], by decide, ?_⟩
      intro length mem accepted _
      obtain ⟨crlf, last, -, -, found, walked, -⟩ :=
        hasCompleteRespCommand_some accepted
      obtain ⟨line, declared⟩ := header [[97]]
      rw [line] at found
      cases found
      rw [declared, Int.toNat_natCast] at walked
      obtain ⟨others, rfl⟩ : ∃ others, count = others + 1 :=
        ⟨count - 1, by omega⟩
      obtain ⟨-, -, dollar, -⟩ := walkArguments_succ walked
      rw [byteAt_eq_head _ (by omega), behind [[97]]] at dollar
      exact absurd dollar (by decide)
  | cons byte rest =>
      obtain rfl := mark byte rest rfl
      have declaredLength : ∀ command : List Bytes,
          atoi (bytesFrom (((42 :: decimal count) ++ 13 :: 10 :: 36 :: rest)
            ++ respEncode command)
            (((1 + (decimal count).length : Nat) : Int) + 2 + 1)) =
            atoi (rest ++ [42]) := by
        intro command
        have next := bytesFrom_add
          (((42 :: decimal count) ++ 13 :: 10 :: 36 :: rest) ++
            respEncode command)
          (show 0 ≤ ((1 + (decimal count).length : Nat) : Int) + 2 by omega)
          1
        rw [Nat.cast_one, behind command] at next
        rw [next]
        exact atoi_star rest _
      by_cases one : (atoi (rest ++ [42])).toNat = 1
      · refine ⟨[[97, 97]], by decide, ?_⟩
        intro length mem accepted decoded
        have same := args_head_length accepted (header [[97, 97]]).1
          (by rw [(header [[97, 97]]).2]; omega) decoded
        rw [declaredLength [[97, 97]], one] at same
        simp at same
      · refine ⟨[[97]], by decide, ?_⟩
        intro length mem accepted decoded
        have same := args_head_length accepted (header [[97]]).1
          (by rw [(header [[97]]).2]; omega) decoded
        rw [declaredLength [[97]]] at same
        exact one same.symm

/-- Torn bytes make the next recovery misread some short frame. -/
theorem torn_misread {args : List Bytes} {short : Bytes}
    (initial : short <+: respEncode args) (proper : short ≠ respEncode args)
    (small : (respEncode args).length ≤ aofBufSize)
    (nonempty : short ≠ []) :
    ∃ command, (respEncode command).length ≤ 64 ∧
      ∀ length,
        hasCompleteRespCommand (short ++ respEncode command) 0
            (short ++ respEncode command).length = some length →
          (respUnpackNoModify (short ++ respEncode command) 0 length).args
            (short ++ respEncode command) ≠ command := by
  have size := initial.length_le
  have limit : aofBufSize < 2 ^ 30 := by decide
  rw [respEncode, respHeader_eq_line] at initial
  rcases prefix_line_cases initial with header | ⟨tail, rfl, bulks⟩
  · have unended := crlfIndex_partial
      (cr_not_mem_line 42 (by decide) args.length) header
    obtain ⟨number, rfl⟩ : ∃ number, short = 42 :: number := by
      cases short with
      | nil => exact absurd rfl nonempty
      | cons byte number =>
          rw [List.cons_append, List.cons_prefix_cons] at header
          exact ⟨number, by rw [header.1]⟩
    have declared : ∀ command,
        declaredCount ((42 :: number) ++ respEncode command) 0 =
          atoi (number ++ [42]) :=
      fun command => atoi_star number _
    by_cases few : (atoi (number ++ [42])).toNat ≤ 1
    · refine ⟨[[97], [97]], by decide, ?_⟩
      intro length _ decoded
      have limit := args_length_le
        ((42 :: number) ++ respEncode [[97], [97]]) 0 length
      rw [decoded, declared] at limit
      simp at limit
      omega
    · refine ⟨[[97]], by decide, ?_⟩
      intro length accepted _
      rw [torn_header_waits unended
        (by rw [List.length_cons] at size; omega)
        (by rw [declared]; omega)] at accepted
      cases accepted
  · have counted : args.length < 2 ^ 31 := by
      have bytes := length_le_respBulks args
      rw [respEncode, List.length_append] at small
      omega
    refine torn_body_misread ?_ counted ?_
    · by_contra none
      have empty : args = [] := List.eq_nil_of_length_eq_zero (by omega)
      subst empty
      have shape : tail = [] := List.prefix_nil.mp bulks
      exact proper (by rw [shape]; rfl)
    · rintro byte rest rfl
      cases args with
      | nil => exact absurd bulks (by simp [respBulks])
      | cons arg others =>
          rw [respBulks_cons, respBulk, List.cons_append,
            List.cons_prefix_cons] at bulks
          exact bulks.1

/-! ## The second recovery -/

/-- The executed commands only grow while the replay goes on. -/
theorem frameLoop_executed_prefix {κ σ : Type} {layer : CommandLayer κ σ}
    {mem : Bytes} {inBuf inLen processed final : Int} {fuel : Nat}
    {session result : Session σ}
    (ended : frameLoop (recoverCommand layer mem) mem inBuf inLen fuel
      processed session = some (final, result)) :
    session.executed <+: result.executed := by
  induction fuel generalizing processed session with
  | zero => cases ended
  | succ fuel induction =>
      rw [frameLoop] at ended
      split_ifs at ended with inside
      · split at ended
        · cases ended
          exact List.prefix_rfl
        · obtain ⟨next, done, rest⟩ := Option.bind_eq_some_iff.mp ended
          have later := induction rest
          rw [← replayCommand_of_recoverCommand done,
            replayCommand_executed] at later
          exact (List.prefix_append _ _).trans later
      · cases ended
        exact List.prefix_rfl

/-- A replay executes first what its first accepted frame decodes to. -/
theorem kvsPersistenceRecover_first {κ σ : Type} {layer : CommandLayer κ σ}
    {fuel : Nat} {a next : Aof} {session final : Session σ}
    (idle : session.executed = []) (small : a.file.length < 2 ^ 31)
    (recovered : kvsPersistenceRecover layer fuel a session =
      some (next, final)) :
    final.executed = [] ∨
      ∃ length, hasCompleteRespCommand a.file 0 a.file.length =
          some length ∧
        [(respUnpackNoModify a.file 0 length).args a.file] <+:
          final.executed := by
  rw [kvsPersistenceRecover] at recovered
  by_cases empty : a.file.length = 0
  · rw [if_pos empty] at recovered
    cases recovered
    exact Or.inl idle
  · rw [if_neg empty] at recovered
    obtain ⟨⟨processed, result⟩, run, shape⟩ :=
      Option.map_eq_some_iff.mp recovered
    cases shape
    rw [toInt32_of_range (by omega) (by omega), protocolProcessRecover,
      if_neg (by omega)] at run
    cases fuel with
    | zero => cases run
    | succ fuel =>
        rw [frameLoop, if_pos (by omega), Int.zero_add, Int.sub_zero,
          toInt32_of_range (by omega) (by omega)] at run
        split at run
        · cases run
          exact Or.inl idle
        · next length accepted =>
            right
            obtain ⟨after, done, rest⟩ := Option.bind_eq_some_iff.mp run
            have grown := frameLoop_executed_prefix rest
            rw [← replayCommand_of_recoverCommand done,
              replayCommand_executed, idle, List.nil_append] at grown
            exact ⟨length, accepted, grown⟩

/--
The sizes within which the log works at all: `in_len` is an `int`, and
`kvs_persistence_write` refuses frames larger than its buffer.
-/
structure Fits (before : List (List Bytes)) (torn : Bytes)
    (after : List (List Bytes)) : Prop where
  int : (respStream before ++ torn ++ respStream after).length < 2 ^ 31
  frames : ∀ command ∈ after, (respEncode command).length ≤ aofBufSize

/--
Crash, recovery, append, recovery: the file holds `before` and `torn`; the
first recovery returns, and after every run that logs `after` and flushes it
completely the second recovery returns and executes `before` and `after`.
-/
def SecondRecoveryExact (before : List (List Bytes)) (torn : Bytes)
    (after : List (List Bytes)) : Prop :=
  ∀ (κ σ : Type) (layer : CommandLayer κ σ) (first second : Session σ),
    second.executed = [] →
    ∃ fuel restarted replayed,
      kvsPersistenceRecover layer fuel
          (kvsPersistenceInit (respStream before ++ torn)) first =
        some (restarted, replayed) ∧
      ∀ events stopped,
        writtenFrames events = after.map respEncode →
        restarted.run events = some stopped →
        stopped.Flushed →
        ∃ fuel last final,
          kvsPersistenceRecover layer fuel
              (kvsPersistenceInit stopped.file) second =
            some (last, final) ∧
          final.executed = before ++ after

/-- Recovery leaves the log open and with nothing pending. -/
theorem quiet_of_recover {κ σ : Type} {layer : CommandLayer κ σ}
    {fuel : Nat} {file : Bytes} {next : Aof} {session final : Session σ}
    (recovered : kvsPersistenceRecover layer fuel (kvsPersistenceInit file)
      session = some (next, final)) :
    Quiet next ∧ next.file = file := by
  rw [kvsPersistenceRecover] at recovered
  by_cases empty : (kvsPersistenceInit file).file.length = 0
  · rw [if_pos empty] at recovered
    cases recovered
    exact ⟨⟨rfl, ⟨rfl, rfl⟩, ringOk_init file⟩, rfl⟩
  · rw [if_neg empty] at recovered
    obtain ⟨result, run, shape⟩ := Option.map_eq_some_iff.mp recovered
    cases shape
    exact ⟨⟨rfl, ⟨rfl, rfl⟩, fun _ => ⟨rfl, rfl⟩,
      fun busy => by cases busy⟩, rfl⟩

/-- A completely flushed run leaves the frames behind the recovered file. -/
theorem file_of_flushed_run {a b : Aof} (quiet : Quiet a)
    {events : List AofEvent} {commands : List (List Bytes)}
    (written : writtenFrames events = commands.map respEncode)
    (frames : ∀ command ∈ commands, (respEncode command).length ≤ aofBufSize)
    (run : a.run events = some b) (flushed : b.Flushed) :
    b.file = a.file ++ respStream commands := by
  obtain ⟨ring, logged, -⟩ := run_logged quiet.ring
    (by rw [quiet.opened]; decide)
    (by
      rw [written]
      intro frame member
      obtain ⟨command, listed, rfl⟩ := List.mem_map.mp member
      exact frames command listed) run
  rw [ring.file_of_flushed flushed, logged, written,
    ← quiet.ring.file_of_flushed quiet.flushed]
  rfl

theorem secondRecoveryExact_of_readable
    {before after : List (List Bytes)} {torn : Bytes}
    (fits : Fits before torn after) (short : TornTail torn)
    (readable : torn = [] ∨ after = []) :
    SecondRecoveryExact before torn after := by
  intro κ σ layer first second idle
  have int := fits.int
  have whole : (respStream before ++ torn).length < 2 ^ 31 := by
    rw [List.length_append] at int
    omega
  obtain ⟨fuel, restarted, replayed, recovered, -, -⟩ :=
    kvsPersistenceRecover_canonical layer first
      (show (kvsPersistenceInit (respStream before ++ torn)).file =
        respStream before ++ torn from rfl) short whole
  refine ⟨fuel, restarted, replayed, recovered, ?_⟩
  intro events stopped written run flushed
  obtain ⟨quiet, file⟩ := quiet_of_recover recovered
  have content := file_of_flushed_run quiet written fits.frames run flushed
  rw [file] at content
  have shape : ∃ rest, TornTail rest ∧
      stopped.file = respStream (before ++ after) ++ rest := by
    rcases readable with rfl | rfl
    · exact ⟨[], Or.inl rfl, by rw [content, respStream_append]; simp⟩
    · exact ⟨torn, short, by rw [content]; simp [respStream]⟩
  obtain ⟨rest, restShort, layoutEq⟩ := shape
  obtain ⟨fuel, last, final, again, -, executed⟩ :=
    kvsPersistenceRecover_canonical layer second
      (show (kvsPersistenceInit stopped.file).file =
        respStream (before ++ after) ++ rest from layoutEq) restShort
      (by
        rw [← content] at int
        exact int)
  exact ⟨fuel, last, final, again, by rw [executed, idle]; rfl⟩

theorem not_secondRecoveryExact_of_misread {torn : Bytes}
    {command : List Bytes} (fits : Fits [] torn [command])
    (misread : ∀ length,
      hasCompleteRespCommand (torn ++ respEncode command) 0
          (torn ++ respEncode command).length = some length →
        (respUnpackNoModify (torn ++ respEncode command) 0 length).args
          (torn ++ respEncode command) ≠ command) :
    ¬ SecondRecoveryExact [] torn [command] := by
  intro promised
  obtain ⟨fuel, restarted, replayed, recovered, promise⟩ :=
    promised Unit Unit emptyLayer idleSession idleSession rfl
  obtain ⟨quiet, file⟩ := quiet_of_recover recovered
  have frame : respEncode command ≠ [] := by
    intro empty
    have minimum := respEncode_length_ge command
    rw [empty] at minimum
    simp at minimum
  obtain ⟨events, stopped, written, run, final⟩ :=
    exists_flushed_run quiet
      (show ∀ frame ∈ [respEncode command],
          frame ≠ [] ∧ frame.length ≤ aofBufSize by
        simpa using ⟨frame, fits.frames command (by simp)⟩)
  have content := file_of_flushed_run quiet written fits.frames run
    final.flushed
  rw [file] at content
  have shape : stopped.file = torn ++ respEncode command := by
    simpa [respStream] using content
  have int : (torn ++ respEncode command).length < 2 ^ 31 := by
    simpa [respStream] using fits.int
  obtain ⟨fuel, last, replayed, again, executed⟩ :=
    promise events stopped written run final.flushed
  rw [shape] at again
  rcases kvsPersistenceRecover_first rfl int again with
    empty | ⟨length, accepted, started⟩
  · rw [executed] at empty
    cases empty
  · rw [executed] at started
    have equal := started.eq_of_length rfl
    exact misread length accepted (List.cons.inj equal).1

/--
Recovery after a torn tail.  The tails behind which everything logged later
survives the next recovery are exactly the empty ones; and with any tail the
second recovery is right as long as nothing is logged after the first.
-/
theorem secondRecovery_exact_iff
    (torn : Bytes) (args : List Bytes)
    (initial : torn <+: respEncode args) (proper : torn ≠ respEncode args)
    (small : (respEncode args).length ≤ aofBufSize) :
    ((∀ before after, Fits before torn after →
        SecondRecoveryExact before torn after) ↔ torn = []) ∧
      ∀ before, Fits before torn [] → SecondRecoveryExact before torn [] := by
  have limit : aofBufSize < 2 ^ 30 := by decide
  have short : TornTail torn := Or.inr ⟨args, initial, proper, by omega⟩
  refine ⟨⟨?_, ?_⟩, ?_⟩
  · intro survives
    by_contra nonempty
    obtain ⟨command, size, misread⟩ :=
      torn_misread initial proper small nonempty
    have size' := initial.length_le
    have fits : Fits [] torn [command] := by
      refine ⟨?_, ?_⟩
      · simp only [respStream, List.map_nil, List.flatten_nil,
          List.nil_append, List.map_cons, List.flatten_cons, List.append_nil,
          List.length_append]
        omega
      · intro other member
        rw [List.mem_singleton.mp member]
        have large : 64 ≤ aofBufSize := by decide
        omega
    exact not_secondRecoveryExact_of_misread fits misread
      (survives [] [command] fits)
  · rintro rfl before after fits
    exact secondRecoveryExact_of_readable fits short (Or.inl rfl)
  · intro before fits
    exact secondRecoveryExact_of_readable fits short (Or.inr rfl)

/-- Without torn bytes two `SET` commands around a restart both survive. -/
theorem secondRecovery_exact_iff_set :
    SecondRecoveryExact [[ascii "SET", ascii "k", ascii "v"]] []
      [[ascii "SET", ascii "k", ascii "w"]] := by
  apply (secondRecovery_exact_iff [] [ascii "PING"] (List.nil_prefix)
    (by decide) (by decide)).1.mpr rfl
  exact ⟨by decide, by decide⟩

/--
A `SET` torn inside its name swallows the `SET` that is logged behind it: the
second recovery executes nothing.
-/
theorem secondRecovery_loses_set :
    Fits [] (ascii "*3\r\n$3\r\nSE") [[ascii "SET", ascii "k", ascii "v"]] ∧
      ¬ SecondRecoveryExact [] (ascii "*3\r\n$3\r\nSE")
        [[ascii "SET", ascii "k", ascii "v"]] := by
  have fits : Fits [] (ascii "*3\r\n$3\r\nSE")
      [[ascii "SET", ascii "k", ascii "v"]] := ⟨by decide, by decide⟩
  refine ⟨fits, not_secondRecoveryExact_of_misread fits ?_⟩
  intro length accepted
  have incomplete : hasCompleteRespCommand
      (ascii "*3\r\n$3\r\nSE" ++
        respEncode [ascii "SET", ascii "k", ascii "v"]) 0
      (ascii "*3\r\n$3\r\nSE" ++
        respEncode [ascii "SET", ascii "k", ascii "v"]).length = none := by
    decide
  rw [incomplete] at accepted
  cases accepted

/-! ## Files of any size -/

/-- A command with a frame that `has_complete_resp_command` can measure: it counts
the bytes in an `int`. -/
structure CompleteCommand where
  args : List Bytes
  small : (respEncode args).length < 2 ^ 31

/-- The argument lists of complete commands. -/
def argLists (commands : List CompleteCommand) : List (List Bytes) :=
  commands.map CompleteCommand.args

/-- The append-only file with the frames of these commands. -/
def Aof.holding (a : Aof) (commands : List CompleteCommand) : Aof :=
  { a with file := respStream (argLists commands) }

/-- A file that is cut somewhere is cut inside of a frame or in front of one. -/
theorem exists_torn_frame {commands : List CompleteCommand} {size : Nat}
    (cut : size < (respStream (argLists commands)).length) :
    ∃ first next rest short,
      commands = first ++ next :: rest ∧ TornTail short ∧
        respStream (argLists first) ++ short <+:
          respStream (argLists commands) ∧
        (respStream (argLists first) ++ short).length = size := by
  induction commands generalizing size with
  | nil => exact absurd cut (Nat.not_lt_zero size)
  | cons command commands induction =>
      have frames : respStream (argLists (command :: commands)) =
          respEncode command.args ++ respStream (argLists commands) :=
        respStream_cons command.args (argLists commands)
      by_cases inside : size < (respEncode command.args).length
      · refine ⟨[], command, commands, (respEncode command.args).take size, rfl,
          Or.inr ⟨command.args, List.take_prefix _ _, ?_, command.small⟩, ?_, ?_⟩
        · intro whole
          have shorter := congrArg List.length whole
          rw [List.length_take] at shorter
          omega
        · rw [frames]
          exact (List.take_prefix _ _).trans (List.prefix_append _ _)
        · rw [argLists, List.map_nil, respStream, List.map_nil,
            List.flatten_nil, List.nil_append, List.length_take]
          omega
      · rw [frames, List.length_append] at cut
        obtain ⟨first, next, rest, short, split, torn, initial, length⟩ :=
          @induction (size - (respEncode command.args).length) (by omega)
        have longer : respStream (argLists (command :: first)) =
            respEncode command.args ++ respStream (argLists first) :=
          respStream_cons command.args (argLists first)
        refine ⟨command :: first, next, rest, short, by rw [split]; rfl, torn,
          ?_, ?_⟩
        · rw [longer, frames, List.append_assoc]
          exact List.prefix_append_right_inj _ |>.mpr initial
        · rw [longer, List.append_assoc, List.length_append, length]
          omega

/-- The result of a recovery does not depend on the fuel. -/
theorem kvsPersistenceRecover_unique {κ σ : Type} {layer : CommandLayer κ σ}
    {fuel fuel' : Nat} {a : Aof} {session : Session σ}
    {result result' : Aof × Session σ}
    (ended : kvsPersistenceRecover layer fuel a session = some result)
    (ended' : kvsPersistenceRecover layer fuel' a session = some result') :
    result = result' := by
  rw [kvsPersistenceRecover] at ended ended'
  by_cases empty : a.file.length = 0
  · rw [if_pos empty] at ended ended'
    exact Option.some.inj (ended.symm.trans ended')
  · rw [if_neg empty] at ended ended'
    obtain ⟨final, replay, shape⟩ := Option.map_eq_some_iff.mp ended
    obtain ⟨final', replay', shape'⟩ := Option.map_eq_some_iff.mp ended'
    have same : final = final' := by
      rw [protocolProcessRecover] at replay replay'
      split_ifs at replay replay' with nothing
      · exact Option.some.inj (replay.symm.trans replay')
      · have common := frameLoop_mono replay (Nat.le_add_right fuel fuel')
        have common' := frameLoop_mono replay' (Nat.le_add_left fuel' fuel)
        exact Option.some.inj (common.symm.trans common')
    rw [← shape, ← shape', same]

/-- The recovery returns and has executed these commands, in this order. -/
def Executes {κ σ : Type} (layer : CommandLayer κ σ) (a : Aof)
    (session : Session σ) (commands : List CompleteCommand) : Prop :=
  ∃ fuel next final,
    kvsPersistenceRecover layer fuel (Aof.holding a commands) session =
        some (next, final) ∧
      final.executed = session.executed ++ argLists commands

/-- A file whose size is no `int` is cut in front of one of its commands. -/
theorem not_executes {κ σ : Type} {layer : CommandLayer κ σ} {a : Aof}
    {session : Session σ} {commands : List CompleteCommand}
    (large : 2 ^ 31 ≤ (respStream (argLists commands)).length) :
    ¬ Executes layer a session commands := by
  rintro ⟨fuel, next, final, ended, all⟩
  have bounds := toInt32_bounds
    ((Aof.holding a commands).file.length : Int)
  have size : (Aof.holding a commands).file.length =
      (respStream (argLists commands)).length := rfl
  by_cases positive :
      0 < toInt32 ((Aof.holding a commands).file.length : Int)
  · obtain ⟨first, other, rest, short, split, torn, content, length⟩ :=
      @exists_torn_frame commands
        (toInt32 ((Aof.holding a commands).file.length : Int)).toNat (by omega)
    obtain ⟨fuel', next', final', ended', -, fewer⟩ :=
      @kvsPersistenceRecover_window _ _ layer session
        (Aof.holding a commands) (argLists first) short content torn (by omega)
    obtain ⟨-, rfl⟩ :=
      Prod.mk.inj (kvsPersistenceRecover_unique ended ended')
    have same := congrArg List.length
      (List.append_cancel_left (fewer.symm.trans all))
    rw [split] at same
    simp [argLists] at same
  · have nothing : final = session := by
      rw [kvsPersistenceRecover, if_neg (by omega), protocolProcessRecover,
        if_pos (by omega)] at ended
      exact (Prod.mk.inj (Option.some.inj ended)).2.symm
    rw [nothing] at all
    have none : argLists commands = [] := List.self_eq_append_right.mp all
    rw [none] at large
    exact absurd large (by decide)

/--
A recovery executes every command of a file exactly when the size of the file is
an `int`: `kvs_persistence_recover` hands a `size_t` to a parameter of that type.
-/
theorem kvsPersistenceRecover_executes_iff {κ σ : Type}
    (layer : CommandLayer κ σ) (a : Aof) (session : Session σ)
    (commands : List CompleteCommand) :
    Executes layer a session commands ↔
      (respStream (argLists commands)).length < 2 ^ 31 := by
  constructor
  · intro executes
    by_contra large
    exact not_executes (Nat.le_of_not_lt large) executes
  · intro small
    obtain ⟨fuel, next, final, ended, -, all⟩ :=
      @kvsPersistenceRecover_canonical _ _ layer session
        (Aof.holding a commands) (argLists commands) []
        (List.append_nil _).symm (Or.inl rfl) small
    exact ⟨fuel, next, final, ended, all⟩

/-- `PING` as it is logged. -/
def pingCommand : CompleteCommand :=
  { args := [ascii "PING"], small := by decide }

/-- Copies of one frame. -/
theorem respStream_replicate_length (count : Nat) (command : CompleteCommand) :
    (respStream (argLists (List.replicate count command))).length =
      count * (respEncode command.args).length := by
  simp [respStream, argLists, List.length_flatten]

/-- A file of two hundred million pings, of 2.8 gigabytes, is not replayed. -/
theorem largeLog_not_executed :
    ¬ Executes emptyLayer (kvsPersistenceInit []) idleSession
      (List.replicate 200000000 pingCommand) := by
  apply not_executes
  rw [respStream_replicate_length]
  decide

end Kivo.Persistence.Recovery
