import Kivo.Resp.Canonical
import Kivo.Resp.Reply
import Kivo.Server.State

/-!
# The two execution loops of the protocol layer

`protocol_process_stream` serves a connection and `protocol_process_recover`
replays the append-only file.  Both advance through their buffer frame by
frame with the same loop; they differ in what they do with a frame.  The loop
is stated once, over an arbitrary body, with a fuel argument that bounds the
number of iterations: `none` says that the bound was exceeded, or that a body
had no result because it copied a negative number of bytes.

The command table and the command handler are what the C code reaches through
`lookup_command` and the function pointer `g_command_handler`; here they are
a parameter, and a handler always comes back.
-/

namespace Kivo.Resp.Stream

open Kivo.Clib.Memory
open Kivo.Resp.Frame
open Kivo.Resp.Canonical
open Kivo.Resp.Reply
open Kivo.Server.State

/-! ## Command names -/

/-- `toupper` in the C locale. -/
def toUpper (byte : UInt8) : UInt8 :=
  if 97 ≤ byte ∧ byte ≤ 122 then byte - 32 else byte

/-- Equality of names as `strncasecmp` sees it. -/
def sameName (left right : Bytes) : Bool :=
  left.map toUpper == right.map toUpper

/-- `len == n && strncasecmp(name, literal, n) == 0` for the `len` bytes at
`name`. -/
def nameIs (mem : Bytes) (name len : Int) (literal : Bytes) : Bool :=
  decide (len = literal.length) && sameName (slice mem name len) literal

/-- With the length of the name itself, only the bytes matter. -/
theorem nameIs_of_slice {mem text : Bytes} {name len : Int}
    (bytes : slice mem name len = text) (length : len = text.length)
    (literal : Bytes) : nameIs mem name len literal = sameName text literal := by
  rw [nameIs, bytes, length]
  by_cases same : sameName text literal = true
  · have sameLength := congrArg List.length (eq_of_beq same)
    rw [List.length_map, List.length_map] at sameLength
    rw [same, sameLength]
    simp
  · rw [Bool.not_eq_true] at same
    rw [same, Bool.and_false]

/-- The names in the chain of tests of `is_write_command`. -/
def writeCommandNames : List Bytes :=
  [ascii "SET", ascii "DEL", ascii "MOD",
    ascii "RSET", ascii "RDEL", ascii "RMOD",
    ascii "HSET", ascii "HDEL", ascii "HMOD",
    ascii "SSET", ascii "SDEL", ascii "SMOD",
    ascii "KEEP", ascii "SETCTX", ascii "SETREC", ascii "SETIDX",
    ascii "ZADD", ascii "DELCTX"]

/-- `is_write_command`. -/
def isWriteCommand (mem : Bytes) (cmd len : Int) : Bool :=
  writeCommandNames.any (nameIs mem cmd len)

/-- The test of a request's name used by the special branches. -/
def requestIs (mem : Bytes) (req : RespRequest) (literal : Bytes) : Bool :=
  decide (0 < req.argc) &&
    nameIs mem (req.argv.getD 0 0) (req.argvLen.getD 0 0) literal

/-! ## One command of a connection -/

/-- `lookup_command` and the registered command handler. -/
structure CommandLayer (κ σ : Type) where
  lookupCommand : Bytes → Int → Int → Option κ
  handler :
    Globals σ → Bytes → RespRequest → Option κ → Globals σ × RespReply

/--
What `protocol_process_stream` works on: the globals, the write buffer of the
connection when it has one, and the argument lists of the commands carried
out so far.
-/
structure Session (σ : Type) where
  globals : Globals σ
  wbuf : Option WriteBuffer
  executed : List (List Bytes)

/-- A command layer that knows no command. -/
def emptyLayer : CommandLayer Unit Unit :=
  { lookupCommand := fun _ _ _ => none
    handler := fun globals _ _ _ => (globals, RespReply.plain .unknown) }

/-- A session that has carried out nothing and has no write buffer. -/
def idleSession : Session Unit :=
  { globals := { store := (), persisted := [], repl := ReplState.initial }
    wbuf := none
    executed := [] }

/-- Pack a reply when the connection has a write buffer. -/
def packReply (wbuf : Option WriteBuffer) (reply : RespReply) :
    Option WriteBuffer :=
  wbuf.map (fun buffer => respPackWithRealloc buffer reply)

/-- `kvs_malloc(len)` followed by a copy; an empty request allocates nothing. -/
def kvsMallocCopy (content : Bytes) : Option Bytes :=
  if content.length = 0 then none else some content

/-- The reply of the `PING` branch. -/
def pingReply (mem : Bytes) (req : RespRequest) : RespReply :=
  if req.argc = 1 then RespReply.plain .pong
  else if req.argc = 2 then
    { status := .getOk
      body := kvsMallocCopy (req.arg mem 1)
      bodyLen := req.argvLen.getD 1 0 }
  else RespReply.plain .parseError

/--
The RDMA and SYNC branches.  `handle_slave_rdma_connect` answers on the
socket itself; of its effects only the new slave descriptor is visible here.
-/
def noteSlave (flags : Flags) (mem : Bytes) (req : RespRequest) (fd : Int)
    (repl : ReplState) : ReplState :=
  if flags.enableReplMaster then
    if requestIs mem req (ascii "RDMA_CONNECT") then
      { repl with slaveFd := fd }
    else if flags.useTcpSync && requestIs mem req (ascii "SYNC") then
      { repl with slaveFd := fd }
    else repl
  else repl

/-- What the body of the loop of `protocol_process_stream` does with a frame on
which it comes to its end. -/
def serveCommand {κ σ : Type} (layer : CommandLayer κ σ) (flags : Flags)
    (fd : Int) (mem : Bytes) (cmdRawPtr singleCmdLen : Int)
    (session : Session σ) : Session σ :=
  let req := respUnpackNoModify mem cmdRawPtr singleCmdLen
  let executed := session.executed ++ [req.args mem]
  let globals :=
    { session.globals with
      repl := noteSlave flags mem req fd session.globals.repl }
  if requestIs mem req (ascii "PING") then
    { globals := globals
      wbuf := packReply session.wbuf (pingReply mem req)
      executed := executed }
  else if flags.enableReplMaster &&
      requestIs mem req (ascii "RDMA_CONNECT") then
    { globals := globals, wbuf := session.wbuf, executed := executed }
  else
    let name := req.argv.getD 0 0
    let nameLen := req.argvLen.getD 0 0
    let cmd :=
      if 0 < req.argc then layer.lookupCommand mem name nameLen else none
    let isWrite := decide (0 < req.argc) && isWriteCommand mem name nameLen
    let logged :=
      if isWrite then
        globals.logFrame flags (slice mem cmdRawPtr singleCmdLen)
      else globals
    let outcome := layer.handler logged mem req cmd
    { globals := outcome.1
      wbuf := packReply session.wbuf outcome.2
      executed := executed }

/-- The `PING` branch copies an argument of negative length, which `memcpy`
takes for a huge one. -/
def PingRunsAway (mem : Bytes) (req : RespRequest) : Prop :=
  requestIs mem req (ascii "PING") = true ∧ req.argc = 2 ∧
    req.argvLen.getD 1 0 < 0

instance (mem : Bytes) (req : RespRequest) :
    Decidable (PingRunsAway mem req) :=
  inferInstanceAs (Decidable (_ ∧ _))

/-- The body of the loop of `protocol_process_stream`. -/
def processCommand {κ σ : Type} (layer : CommandLayer κ σ) (flags : Flags)
    (fd : Int) (mem : Bytes) (cmdRawPtr singleCmdLen : Int)
    (session : Session σ) : Option (Session σ) :=
  if PingRunsAway mem (respUnpackNoModify mem cmdRawPtr singleCmdLen) then
    none
  else
    some (serveCommand layer flags fd mem cmdRawPtr singleCmdLen session)

/-- What the body of the loop of `protocol_process_recover` does with a frame
on which it comes to its end. -/
def replayCommand {κ σ : Type} (layer : CommandLayer κ σ)
    (mem : Bytes) (cmdRawPtr singleCmdLen : Int)
    (session : Session σ) : Session σ :=
  let req := respUnpackNoModify mem cmdRawPtr singleCmdLen
  let cmd :=
    if 0 < req.argc then
      layer.lookupCommand mem (req.argv.getD 0 0) (req.argvLen.getD 0 0)
    else none
  { session with
    globals := (layer.handler session.globals mem req cmd).1
    executed := session.executed ++ [req.args mem] }

/-- The body of the loop of `protocol_process_recover`: it copies the two
argument arrays, whose size a negative `argc` turns into a huge one. -/
def recoverCommand {κ σ : Type} (layer : CommandLayer κ σ)
    (mem : Bytes) (cmdRawPtr singleCmdLen : Int)
    (session : Session σ) : Option (Session σ) :=
  if (respUnpackNoModify mem cmdRawPtr singleCmdLen).argc < 0 then none
  else some (replayCommand layer mem cmdRawPtr singleCmdLen session)

theorem replayCommand_of_recoverCommand {κ σ : Type}
    {layer : CommandLayer κ σ} {mem : Bytes} {cmdRawPtr singleCmdLen : Int}
    {session next : Session σ}
    (done : recoverCommand layer mem cmdRawPtr singleCmdLen session =
      some next) :
    replayCommand layer mem cmdRawPtr singleCmdLen session = next := by
  rw [recoverCommand] at done
  split_ifs at done
  exact Option.some.inj done

/-- Whether a body gets past a frame does not depend on the session. -/
theorem recoverCommand_passes {κ σ υ : Type} {layer : CommandLayer κ σ}
    {mem : Bytes} {cmdRawPtr singleCmdLen : Int} {session next : Session σ}
    (done : recoverCommand layer mem cmdRawPtr singleCmdLen session =
      some next) (other : CommandLayer κ υ) (twin : Session υ) :
    recoverCommand other mem cmdRawPtr singleCmdLen twin =
      some (replayCommand other mem cmdRawPtr singleCmdLen twin) := by
  rw [recoverCommand] at done ⊢
  split_ifs at done ⊢
  rfl

/-! ## The loop -/

/-- The `while (processed < in_len)` loop over an arbitrary body. -/
def frameLoop {τ : Type} (body : Int → Int → τ → Option τ)
    (mem : Bytes) (inBuf inLen : Int) :
    Nat → Int → τ → Option (Int × τ)
  | 0, _, _ => none
  | fuel + 1, processed, state =>
      if processed < inLen then
        match hasCompleteRespCommand mem (inBuf + processed)
            (toInt32 (inLen - processed)) with
        | none => some (processed, state)
        | some singleCmdLen =>
            (body (inBuf + processed) singleCmdLen state).bind
              (frameLoop body mem inBuf inLen fuel
                (toInt32 (processed + singleCmdLen)))
      else some (processed, state)

/-- Return value, `*parsed` when it was written, and the session. -/
structure StreamResult (σ : Type) where
  status : Int
  parsed : Option Int
  session : Session σ

/-- `protocol_process_stream`. -/
def protocolProcessStream {κ σ : Type} (layer : CommandLayer κ σ)
    (flags : Flags) (fd : Int) (fuel : Nat) (mem : Bytes)
    (inBuf inLen : Int) (session : Session σ) : Option (StreamResult σ) :=
  if inLen ≤ 0 then
    some { status := 0, parsed := some 0, session := session }
  else if byteAt mem inBuf ≠ 42 then
    some { status := -1, parsed := none, session := session }
  else
    (frameLoop (processCommand layer flags fd mem) mem inBuf inLen fuel 0
      session).map
      (fun result =>
        { status := 0, parsed := some result.1, session := result.2 })

/-- `protocol_process_recover`. -/
def protocolProcessRecover {κ σ : Type} (layer : CommandLayer κ σ)
    (fuel : Nat) (mem : Bytes) (inBuf inLen : Int) (session : Session σ) :
    Option (Int × Session σ) :=
  if inLen ≤ 0 then some (0, session)
  else
    frameLoop (recoverCommand layer mem) mem inBuf inLen fuel 0 session

/-- A loop that ended within its fuel ends alike with more fuel. -/
theorem frameLoop_mono {τ : Type} {body : Int → Int → τ → Option τ}
    {mem : Bytes}
    {inBuf inLen processed : Int} {fuel larger : Nat} {state : τ}
    {result : Int × τ}
    (ended : frameLoop body mem inBuf inLen fuel processed state =
      some result)
    (more : fuel ≤ larger) :
    frameLoop body mem inBuf inLen larger processed state = some result := by
  induction fuel generalizing processed state larger with
  | zero => cases ended
  | succ fuel induction =>
      obtain ⟨larger, rfl⟩ : ∃ rest, larger = rest + 1 :=
        ⟨larger - 1, by omega⟩
      rw [frameLoop] at ended ⊢
      split_ifs at ended ⊢ with inside
      · split at ended
        · exact ended
        · obtain ⟨next, done, rest⟩ := Option.bind_eq_some_iff.mp ended
          rw [done]
          exact induction rest (by omega)
      · exact ended

/-- Two loops over the same bytes go through the same windows: what their
bodies keep related stays related, and they end together. -/
theorem frameLoop_related {τ υ : Type} {body : Int → Int → τ → Option τ}
    {other : Int → Int → υ → Option υ} {related : τ → υ → Prop}
    {mem : Bytes} {inBuf inLen : Int}
    (step : ∀ {cmdRawPtr singleCmdLen state twin next}, related state twin →
      body cmdRawPtr singleCmdLen state = some next →
        ∃ after, other cmdRawPtr singleCmdLen twin = some after ∧
          related next after)
    {fuel : Nat} {processed : Int} {state : τ} {twin : υ}
    (start : related state twin) {result : Int × τ}
    (ended : frameLoop body mem inBuf inLen fuel processed state =
      some result) :
    ∃ final,
      frameLoop other mem inBuf inLen fuel processed twin =
        some (result.1, final) ∧
      related result.2 final := by
  induction fuel generalizing processed state twin with
  | zero => cases ended
  | succ fuel induction =>
      rw [frameLoop] at ended ⊢
      split_ifs at ended ⊢ with inside
      · cases complete : hasCompleteRespCommand mem (inBuf + processed)
            (toInt32 (inLen - processed)) with
        | none =>
            rw [complete] at ended
            cases ended
            exact ⟨twin, rfl, start⟩
        | some singleCmdLen =>
            rw [complete] at ended
            obtain ⟨next, done, rest⟩ := Option.bind_eq_some_iff.mp ended
            obtain ⟨after, follows, kept⟩ := step start done
            dsimp only
            rw [follows]
            exact induction kept rest
      · cases ended
        exact ⟨twin, rfl, start⟩

theorem protocolProcessStream_mono {κ σ : Type} {layer : CommandLayer κ σ}
    {flags : Flags} {fd : Int} {fuel larger : Nat} {mem : Bytes}
    {inBuf inLen : Int} {session : Session σ} {result : StreamResult σ}
    (ended : protocolProcessStream layer flags fd fuel mem inBuf inLen
      session = some result)
    (more : fuel ≤ larger) :
    protocolProcessStream layer flags fd larger mem inBuf inLen session =
      some result := by
  rw [protocolProcessStream] at ended ⊢
  split_ifs at ended ⊢ with empty garbage
  · exact ended
  · exact ended
  · obtain ⟨final, loop, shape⟩ := Option.map_eq_some_iff.mp ended
    rw [frameLoop_mono loop more, Option.map_some, shape]

/-! ## The loop on canonical frames -/

/-- Consecutive canonical frames. -/
def respStream (commands : List (List Bytes)) : Bytes :=
  (commands.map respEncode).flatten

theorem respStream_cons (command : List Bytes) (rest : List (List Bytes)) :
    respStream (command :: rest) = respEncode command ++ respStream rest := by
  simp [respStream]

theorem respStream_append (first second : List (List Bytes)) :
    respStream (first ++ second) = respStream first ++ respStream second := by
  simp [respStream]

/-- A torn tail: nothing, or the beginning of a frame without its end. -/
def TornTail (short : Bytes) : Prop :=
  short = [] ∨ ∃ args, short <+: respEncode args ∧
    short ≠ respEncode args ∧ (respEncode args).length < 2 ^ 31

/-- The addresses and lengths of consecutive canonical frames. -/
def frameWindows : Int → List (List Bytes) → List (Int × Int)
  | _, [] => []
  | address, command :: rest =>
      (address, ((respEncode command).length : Int)) ::
        frameWindows (address + (respEncode command).length) rest

/-- Run a loop body over a list of windows. -/
def runWindows {τ : Type} (body : Int → Int → τ → τ)
    (windows : List (Int × Int)) (state : τ) : τ :=
  windows.foldl (fun state window => body window.1 window.2 state) state

/--
On canonical frames followed by a torn tail the loop runs its body once per
frame, in order, and stops in front of the tail.
-/
theorem frameLoop_canonical {τ : Type} {mem : Bytes}
    {body : Int → Int → τ → Option τ} {served : Int → Int → τ → τ}
    (passes : ∀ {address command}, Holds mem address (respEncode command) →
      (respEncode command).length < 2 ^ 31 → ∀ state,
        body address (respEncode command).length state =
          some (served address (respEncode command).length state))
    (state : τ) {inBuf inLen processed : Int}
    {commands : List (List Bytes)} {short : Bytes} {fuel : Nat}
    (stored : Holds mem (inBuf + processed) (respStream commands ++ short))
    (tail : TornTail short)
    (window : processed +
      ((respStream commands ++ short).length : Int) = inLen)
    (start : 0 ≤ processed) (int : inLen < 2 ^ 31)
    (enough : commands.length < fuel) :
    frameLoop body mem inBuf inLen fuel processed state =
      some (processed + (respStream commands).length,
        runWindows served (frameWindows (inBuf + processed) commands)
          state) := by
  induction commands generalizing processed fuel state with
  | nil =>
      obtain ⟨fuel, rfl⟩ := Nat.exists_eq_add_of_lt enough
      simp only [respStream, List.map_nil, List.flatten_nil, List.nil_append,
        List.length_nil, Nat.cast_zero, add_zero] at stored window ⊢
      rw [Nat.zero_add, frameLoop]
      split_ifs with inside
      · have length : toInt32 (inLen - processed) = (short.length : Nat) := by
          rw [toInt32_of_range (by omega) (by omega)]
          omega
        rcases tail with rfl | ⟨args, initial, proper, small⟩
        · simp at window
          omega
        · rw [length, hasCompleteRespCommand_torn stored initial proper small]
          rfl
      · rfl
  | cons command commands induction =>
      obtain ⟨fuel, rfl⟩ := Nat.exists_eq_add_of_lt enough
      have minimum := respEncode_length_ge command
      rw [respStream_cons, List.append_assoc] at stored window
      have length : toInt32 (inLen - processed) =
          ((respEncode command ++
            (respStream commands ++ short)).length : Nat) := by
        rw [toInt32_of_range (by omega) (by omega)]
        omega
      have fits : (respEncode command ++
          (respStream commands ++ short)).length < 2 ^ 31 := by omega
      rw [List.length_append] at window
      have inside : processed < inLen := by
        push_cast at window
        omega
      have advance : toInt32 (processed + (respEncode command).length) =
          processed + (respEncode command).length := by
        apply toInt32_of_range
        · omega
        · push_cast at window
          omega
      have next : inBuf + (processed + (respEncode command).length) =
          inBuf + processed + (respEncode command).length := by ring
      have behind := stored.right
      rw [← next] at behind
      rw [frameLoop, if_pos inside, length,
        hasCompleteRespCommand_encode stored fits]
      simp only
      rw [passes stored.left (by rw [List.length_append] at fits; omega),
        Option.bind_some, advance, induction _ behind
        (by push_cast at window ⊢; omega) (by omega)
        (by rw [List.length_cons]; omega)]
      rw [respStream_cons, List.length_append, next]
      simp only [frameWindows, runWindows, List.foldl_cons]
      congr 2
      push_cast
      ring

/-- A canonical frame declares no negative length. -/
theorem processCommand_canonical {κ σ : Type} (layer : CommandLayer κ σ)
    (flags : Flags) (fd : Int) {mem : Bytes} {address : Int}
    {args : List Bytes} (stored : Holds mem address (respEncode args))
    (small : (respEncode args).length < 2 ^ 31) (session : Session σ) :
    processCommand layer flags fd mem address (respEncode args).length
        session =
      some (serveCommand layer flags fd mem address (respEncode args).length
        session) := by
  rw [processCommand, if_neg]
  rintro ⟨-, -, negative⟩
  rw [respUnpackNoModify_encode stored small] at negative
  exact absurd negative (Int.not_lt.mpr (layout_nonneg _ args 1))

theorem recoverCommand_canonical {κ σ : Type} (layer : CommandLayer κ σ)
    {mem : Bytes} {address : Int} {args : List Bytes}
    (stored : Holds mem address (respEncode args))
    (small : (respEncode args).length < 2 ^ 31) (session : Session σ) :
    recoverCommand layer mem address (respEncode args).length session =
      some (replayCommand layer mem address (respEncode args).length
        session) := by
  rw [recoverCommand, if_neg]
  rw [respUnpackNoModify_encode stored small]
  exact Int.not_lt.mpr (Int.natCast_nonneg _)

/-- The call for a connection takes consecutive canonical frames one by
one. -/
theorem protocolProcessStream_canonical {κ σ : Type}
    (layer : CommandLayer κ σ) (flags : Flags) (fd : Int)
    (session : Session σ) {mem : Bytes} {inBuf : Int}
    {commands : List (List Bytes)} {fuel : Nat}
    (stored : Holds mem inBuf (respStream commands))
    (small : (respStream commands).length < 2 ^ 31)
    (enough : commands.length < fuel) :
    protocolProcessStream layer flags fd fuel mem inBuf
        (respStream commands).length session =
      some
        { status := 0
          parsed := some (respStream commands).length
          session := runWindows (serveCommand layer flags fd mem)
            (frameWindows inBuf commands) session } := by
  rw [protocolProcessStream]
  cases commands with
  | nil => rfl
  | cons command rest =>
      have minimum := respEncode_length_ge command
      have positive : ¬ ((respStream (command :: rest)).length : Int) ≤ 0 := by
        rw [respStream_cons, List.length_append]
        omega
      have star : byteAt mem inBuf = 42 := by
        rw [respStream_cons, respEncode, respHeader] at stored
        exact stored.cons.1
      have loop := @frameLoop_canonical _ mem _ _
        (processCommand_canonical layer flags fd) session inBuf
        (respStream (command :: rest)).length 0 (command :: rest) [] fuel
        (by rw [Int.add_zero, List.append_nil]; exact stored)
        (Or.inl rfl) (by rw [List.append_nil, Int.zero_add])
        (Int.le_refl 0) (by exact_mod_cast small) enough
      rw [if_neg positive, if_neg (not_not.mpr star), loop, Int.zero_add,
        Int.add_zero]
      rfl

/-- So does the call that replays a log. -/
theorem protocolProcessRecover_canonical {κ σ : Type}
    (layer : CommandLayer κ σ) (session : Session σ) {mem : Bytes}
    {inBuf : Int} {commands : List (List Bytes)} {fuel : Nat}
    (stored : Holds mem inBuf (respStream commands))
    (small : (respStream commands).length < 2 ^ 31)
    (enough : commands.length < fuel) :
    protocolProcessRecover layer fuel mem inBuf
        (respStream commands).length session =
      some (((respStream commands).length : Int),
        runWindows (replayCommand layer mem)
          (frameWindows inBuf commands) session) := by
  rw [protocolProcessRecover]
  cases commands with
  | nil => rfl
  | cons command rest =>
      have minimum := respEncode_length_ge command
      have positive : ¬ ((respStream (command :: rest)).length : Int) ≤ 0 := by
        rw [respStream_cons, List.length_append]
        omega
      have loop := @frameLoop_canonical _ mem _ _
        (recoverCommand_canonical layer) session inBuf
        (respStream (command :: rest)).length 0 (command :: rest) [] fuel
        (by rw [Int.add_zero, List.append_nil]; exact stored)
        (Or.inl rfl) (by rw [List.append_nil, Int.zero_add])
        (Int.le_refl 0) (by exact_mod_cast small) enough
      rw [if_neg positive, loop, Int.zero_add, Int.add_zero]

/-! ## What the loop bodies record -/

@[simp]
theorem serveCommand_executed {κ σ : Type} (layer : CommandLayer κ σ)
    (flags : Flags) (fd : Int) (mem : Bytes) (cmdRawPtr singleCmdLen : Int)
    (session : Session σ) :
    (serveCommand layer flags fd mem cmdRawPtr singleCmdLen
      session).executed =
      session.executed ++
        [(respUnpackNoModify mem cmdRawPtr singleCmdLen).args mem] := by
  simp only [serveCommand]
  split_ifs <;> rfl

@[simp]
theorem replayCommand_executed {κ σ : Type} (layer : CommandLayer κ σ)
    (mem : Bytes) (cmdRawPtr singleCmdLen : Int) (session : Session σ) :
    (replayCommand layer mem cmdRawPtr singleCmdLen session).executed =
      session.executed ++
        [(respUnpackNoModify mem cmdRawPtr singleCmdLen).args mem] :=
  rfl

/--
A loop body that records the decoded arguments of its window records exactly
the encoded commands when it runs over their frames.
-/
theorem runWindows_executed {σ : Type}
    {body : Int → Int → Session σ → Session σ} {mem : Bytes}
    (records : ∀ address length session,
      (body address length session).executed =
        session.executed ++
          [(respUnpackNoModify mem address length).args mem])
    {address : Int} {commands : List (List Bytes)}
    (stored : Holds mem address (respStream commands))
    (small : (respStream commands).length < 2 ^ 31)
    (session : Session σ) :
    (runWindows body (frameWindows address commands) session).executed =
      session.executed ++ commands := by
  induction commands generalizing address session with
  | nil => simp [frameWindows, runWindows]
  | cons command commands induction =>
      rw [respStream_cons] at stored small
      rw [List.length_append] at small
      have decoded := respUnpackNoModify_args stored.left (by omega)
      have rest := induction stored.right (by omega)
        (body address (respEncode command).length session)
      rw [frameWindows, runWindows, List.foldl_cons]
      rw [runWindows] at rest
      rw [rest, records, decoded, List.append_assoc]
      rfl

end Kivo.Resp.Stream
