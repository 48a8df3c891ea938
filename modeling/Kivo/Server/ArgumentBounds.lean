import Kivo.Server.Readings

/-!
# Requests that are read within their arguments

`g_cmd_table` has a column `minargc`, but nothing compares it with `argc`:
every handler guards its own reading, and so does the `PING` branch of
`protocol_process_stream`.  `handle_slave_rdma_connect` does not.  This module
lists what the loop body reads of a request that has been decoded, from any
bytes, and shows that it reads within `argc` and refuses a request with too few
arguments in every case but that one.
-/

namespace Kivo.Server.ArgumentBounds

open Kivo.Clib.Memory
open Kivo.Resp.Frame
open Kivo.Resp.Reply
open Kivo.Resp.Stream
open Kivo.Server.State
open Kivo.Server.Commands
open Kivo.Server.CommandTable
open Kivo.Server.Alignment (freshSession plainFlags)
open Kivo.Server.Readings

/-! ## What a request makes the server read -/

/-- The tests of the name look at `argv[0]` and `argv_len[0]` behind
`argc > 0`. -/
def nameReads (req : RespRequest) : List Nat :=
  if 0 < req.argc then [0] else []

/-- The positions that `handle_slave_rdma_connect` looks at. -/
def rdmaConnectReads : List Nat :=
  [1, 2, 3, 4]

/-- The positions that the `PING` branch looks at. -/
def pingReads (req : RespRequest) : List Nat :=
  if req.argc = 2 then [1] else []

/-- The request goes to `handle_slave_rdma_connect`. -/
def isRdmaConnect (flags : Flags) (mem : Bytes) (req : RespRequest) : Bool :=
  flags.enableReplMaster && requestIs mem req (ascii "RDMA_CONNECT")

/-- The command of a request. -/
def commandOf (mem : Bytes) (req : RespRequest) : Option Command :=
  if 0 < req.argc then
    lookupCommand mem (req.argv.getD 0 0) (req.argvLen.getD 0 0)
  else none

/-- The positions that the handler of a request looks at. -/
def handlerReads (flags : Flags) (globals : Globals Store) (mem : Bytes)
    (req : RespRequest) : List Nat :=
  match commandOf mem req with
  | some command => Proc.reads (nextCall flags globals mem req) command.proc
  | none => []

/-- The positions of `argv` and `argv_len` that the loop body of
`protocol_process_stream` looks at. -/
def requestReads (flags : Flags) (globals : Globals Store) (mem : Bytes)
    (req : RespRequest) : List Nat :=
  nameReads req ++
    (if isRdmaConnect flags mem req then rdmaConnectReads else []) ++
    if requestIs mem req (ascii "PING") then pingReads req
    else if isRdmaConnect flags mem req then []
    else nameReads req ++ handlerReads flags globals mem req

/-! ## How many arguments a request needs -/

/-- The column `minargc` of `g_cmd_table`. -/
def minargc : Proc → Int
  | .arraySet | .arrayMod | .rbtreeSet | .rbtreeMod | .hashSet | .hashMod => 3
  | .arrayGet | .arrayDel | .arrayExists => 2
  | .rbtreeGet | .rbtreeDel | .rbtreeExists => 2
  | .hashGet | .hashDel | .hashExists => 2
  | .keep => 3
  | .match_ => 2
  | .setctx => 4
  | .getctx | .delctx => 2
  | .setrec => 3
  | .getrec | .getidxrec => 2
  | .setidx => 3
  | .getidx => 2
  | .skipSet | .skipMod => 3
  | .skipGet | .skipDel | .skipExists => 2
  | .zadd | .zrange | .zrangerec => 3
  | .sysSave | .sysSync | .sysSyncDone | .sysMemtrim => 1

/-- The number of arguments, the name included, that the command of a request
needs. -/
def needed (flags : Flags) (mem : Bytes) (req : RespRequest) : Option Int :=
  if requestIs mem req (ascii "PING") then some 1
  else if isRdmaConnect flags mem req then some 5
  else (commandOf mem req).map (fun command => minargc command.proc)

/-- The request names a command and has too few arguments for it. -/
def TooFew (flags : Flags) (mem : Bytes) (req : RespRequest) : Prop :=
  ∃ least, needed flags mem req = some least ∧ req.argc < least

/-! ## Handlers -/

theorem readUnless_lt {misused : Bool} {positions : List Nat} {argc : Int}
    (bounded : misused = false → ∀ index ∈ positions, (index : Int) < argc) :
    ∀ index ∈ readUnless misused positions, (index : Int) < argc := by
  intro index member
  obtain ⟨goesOn, inside⟩ := mem_readUnless.mp member
  exact bounded goesOn index inside

theorem one_lt {argc : Int} (enough : 2 ≤ argc) :
    ∀ index ∈ [1], ((index : Nat) : Int) < argc := by
  simp
  omega

theorem pair_lt {argc : Int} (enough : 3 ≤ argc) :
    ∀ index ∈ [1, 2], ((index : Nat) : Int) < argc := by
  simp
  omega

theorem settingReads_lt (call : Call) :
    ∀ index ∈ settingReads call, (index : Int) < call.argc := by
  refine readUnless_lt (fun enough index member => ?_)
  rw [decide_eq_false_iff_not] at enough
  rcases List.mem_append.mp member with pair | timed
  · exact pair_lt (by omega) index pair
  · by_cases enabled : call.flags.enableTtl = true
    · rw [if_pos enabled, ttlReads] at timed
      split_ifs at timed with few many
      · exact absurd timed List.not_mem_nil
      · rcases List.mem_pair.mp timed with rfl | rfl <;> omega
      · rw [List.mem_singleton.mp timed]
        omega
    · rw [if_neg enabled] at timed
      exact absurd timed List.not_mem_nil

/-- Every handler reads within the arguments. -/
theorem reads_lt (call : Call) (proc : Proc) :
    ∀ index ∈ Proc.reads call proc, (index : Int) < call.argc := by
  have atLeastTwo : ∀ index ∈ readUnless (decide (call.argc < 2)) [1],
      (index : Int) < call.argc :=
    readUnless_lt (fun enough => one_lt
      (Int.not_lt.mp (decide_eq_false_iff_not.mp enough)))
  have atLeastThree : ∀ index ∈ readUnless (decide (call.argc < 3)) [1, 2],
      (index : Int) < call.argc :=
    readUnless_lt (fun enough => pair_lt
      (Int.not_lt.mp (decide_eq_false_iff_not.mp enough)))
  have exactlyTwo : ∀ index ∈ readUnless (decide (call.argc ≠ 2)) [1],
      (index : Int) < call.argc :=
    readUnless_lt (fun goesOn => one_lt
      (not_not.mp (decide_eq_false_iff_not.mp goesOn)).ge)
  have exactlyThree : ∀ index ∈ readUnless (decide (call.argc ≠ 3)) [1, 2],
      (index : Int) < call.argc :=
    readUnless_lt (fun goesOn => pair_lt
      (not_not.mp (decide_eq_false_iff_not.mp goesOn)).ge)
  have nothing : ∀ index ∈ ([] : List Nat), (index : Int) < call.argc :=
    fun index member => absurd member List.not_mem_nil
  cases proc with
  | arraySet => exact settingReads_lt call
  | arrayGet => exact atLeastTwo
  | arrayDel => exact atLeastTwo
  | arrayMod => exact atLeastThree
  | arrayExists => exact atLeastTwo
  | rbtreeSet => exact settingReads_lt call
  | rbtreeGet => exact atLeastTwo
  | rbtreeDel => exact atLeastTwo
  | rbtreeMod => exact atLeastThree
  | rbtreeExists => exact atLeastTwo
  | hashSet => exact settingReads_lt call
  | hashGet => exact atLeastTwo
  | hashDel => exact atLeastTwo
  | hashMod => exact atLeastThree
  | hashExists => exact atLeastTwo
  | keep => exact atLeastThree
  | match_ => exact exactlyTwo
  | setctx =>
      refine readUnless_lt (fun enough index member => ?_)
      rw [decide_eq_false_iff_not] at enough
      simp only [List.mem_cons, List.not_mem_nil, or_false] at member
      omega
  | getctx => exact exactlyTwo
  | delctx => exact exactlyTwo
  | setrec => exact exactlyThree
  | getrec => exact exactlyTwo
  | getidxrec => exact exactlyTwo
  | setidx => exact exactlyThree
  | getidx => exact exactlyTwo
  | skipSet => exact settingReads_lt call
  | skipGet => exact atLeastTwo
  | skipDel => exact atLeastTwo
  | skipMod => exact atLeastThree
  | skipExists => exact atLeastTwo
  | zadd =>
      refine readUnless_lt (fun goesOn index member => ?_)
      rw [decide_eq_false_iff_not, not_not] at goesOn
      rcases List.mem_cons.mp member with rfl | second
      · omega
      · rw [List.mem_singleton.mp (mem_readUnless.mp second).2]
        omega
  | zrange => exact exactlyThree
  | zrangerec => exact exactlyThree
  | sysSave => exact nothing
  | sysSync => exact nothing
  | sysSyncDone => exact nothing
  | sysMemtrim => exact nothing

/-- Every handler refuses a request with too few arguments. -/
theorem run_few {proc : Proc} {call : Call} (positive : 0 < call.argc)
    (few : call.argc < minargc proc) (globals : Globals Store) :
    proc.run call globals = (globals, RespReply.plain .parseError) := by
  have refused : ∀ {result : Store × RespReply},
      result = parseError globals.store →
        (({ globals with store := result.1 }, result.2) :
          Globals Store × RespReply) =
        (globals, RespReply.plain .parseError) := by
    rintro result rfl
    rfl
  cases proc with
  | arraySet => exact refused (if_pos few)
  | arrayGet => exact refused (if_pos (decide_eq_true few))
  | arrayDel => exact refused (if_pos (decide_eq_true few))
  | arrayMod => exact refused (if_pos few)
  | arrayExists => exact refused (if_pos few)
  | rbtreeSet => exact refused (if_pos few)
  | rbtreeGet => exact refused (if_pos (decide_eq_true few))
  | rbtreeDel => exact refused (if_pos (decide_eq_true few))
  | rbtreeMod => exact refused (if_pos few)
  | rbtreeExists => exact refused (if_pos few)
  | hashSet => exact refused (if_pos few)
  | hashGet => exact refused (if_pos (decide_eq_true few))
  | hashDel => exact refused (if_pos (decide_eq_true few))
  | hashMod => exact refused (if_pos few)
  | hashExists => exact refused (if_pos few)
  | keep => exact refused (if_pos few)
  | match_ => exact refused (if_pos (Int.ne_of_lt few))
  | setctx => exact refused (if_pos few)
  | getctx => exact refused (if_pos (decide_eq_true (Int.ne_of_lt few)))
  | delctx => exact refused (if_pos (decide_eq_true (Int.ne_of_lt few)))
  | setrec => exact refused (if_pos (Int.ne_of_lt few))
  | getrec => exact refused (if_pos (decide_eq_true (Int.ne_of_lt few)))
  | getidxrec => exact refused (if_pos (Int.ne_of_lt few))
  | setidx => exact refused (if_pos (Int.ne_of_lt few))
  | getidx => exact refused (if_pos (decide_eq_true (Int.ne_of_lt few)))
  | skipSet => exact refused (if_pos few)
  | skipGet => exact refused (if_pos (decide_eq_true few))
  | skipDel => exact refused (if_pos (decide_eq_true few))
  | skipMod => exact refused (if_pos few)
  | skipExists => exact refused (if_pos few)
  | zadd => exact refused (if_pos (Int.ne_of_lt few))
  | zrange => exact refused (if_pos (Int.ne_of_lt few))
  | zrangerec => exact refused (if_pos (Int.ne_of_lt few))
  | sysSave => exact refused (if_pos (Int.ne_of_lt few))
  | sysSync => exact absurd positive (Int.not_lt.mpr (Int.le_of_lt_add_one few))
  | sysSyncDone => exact absurd positive (Int.not_lt.mpr (Int.le_of_lt_add_one few))
  | sysMemtrim => exact refused (if_pos (Int.ne_of_lt few))

/-! ## Requests -/

/--
The loop body handles the request of a window within its arguments: it looks
at positions below `argc` only, and a request with too few arguments is
answered with a parse error and leaves the tables alone.
-/
structure Bounded (flags : Flags) (fd : Int) (mem : Bytes)
    (cmdRawPtr singleCmdLen : Int) (session : Session Store) : Prop where
  inside : ∀ index ∈ requestReads flags session.globals mem
      (respUnpackNoModify mem cmdRawPtr singleCmdLen),
    (index : Int) < (respUnpackNoModify mem cmdRawPtr singleCmdLen).argc
  refused : TooFew flags mem
      (respUnpackNoModify mem cmdRawPtr singleCmdLen) →
    (serveCommand (commandLayer flags) flags fd mem cmdRawPtr singleCmdLen
        session).wbuf =
        packReply session.wbuf (RespReply.plain .parseError) ∧
      (serveCommand (commandLayer flags) flags fd mem cmdRawPtr
        singleCmdLen session).globals.store.tables =
        session.globals.store.tables

/-- `RDMA_CONNECT` reaches a master with an argument missing. -/
def ShortConnect (flags : Flags) (mem : Bytes) (req : RespRequest) : Prop :=
  isRdmaConnect flags mem req = true ∧ req.argc < 5

theorem requestIs_argc {mem : Bytes} {req : RespRequest} {literal : Bytes}
    (named : requestIs mem req literal = true) :
    0 < req.argc := by
  rw [requestIs, Bool.and_eq_true, decide_eq_true_iff] at named
  exact named.1

theorem nameReads_lt (req : RespRequest) :
    ∀ index ∈ nameReads req, (index : Int) < req.argc := by
  intro index member
  rw [nameReads] at member
  split_ifs at member with positive
  · rw [List.mem_singleton.mp member]
    exact positive
  · exact absurd member List.not_mem_nil

theorem pingReads_lt (req : RespRequest) :
    ∀ index ∈ pingReads req, (index : Int) < req.argc := by
  intro index member
  rw [pingReads] at member
  split_ifs at member with two
  · rw [List.mem_singleton.mp member]
    omega
  · exact absurd member List.not_mem_nil

theorem handlerReads_lt (flags : Flags) (globals : Globals Store)
    (mem : Bytes) (req : RespRequest) :
    ∀ index ∈ handlerReads flags globals mem req,
      (index : Int) < req.argc := by
  intro index member
  rw [handlerReads] at member
  split at member
  · exact reads_lt (nextCall flags globals mem req) _ index member
  · exact absurd member List.not_mem_nil

theorem rdmaConnectReads_lt {req : RespRequest} (enough : 5 ≤ req.argc) :
    ∀ index ∈ rdmaConnectReads, (index : Int) < req.argc := by
  intro index member
  simp only [rdmaConnectReads, List.mem_cons, List.not_mem_nil,
    or_false] at member
  omega

/-- What the loop body reads lies within the arguments of the request. -/
theorem requestReads_lt {flags : Flags} {mem : Bytes} {req : RespRequest}
    (whole : ¬ ShortConnect flags mem req) (globals : Globals Store) :
    ∀ index ∈ requestReads flags globals mem req,
      (index : Int) < req.argc := by
  intro index member
  rw [requestReads, List.mem_append, List.mem_append] at member
  rcases member with (name | rdma) | rest
  · exact nameReads_lt req index name
  · split_ifs at rdma with connect
    · exact rdmaConnectReads_lt
        (Int.not_lt.mp (fun short => whole ⟨connect, short⟩)) index rdma
    · exact absurd rdma List.not_mem_nil
  · split_ifs at rest
    · exact pingReads_lt req index rest
    · exact absurd rest List.not_mem_nil
    · rcases List.mem_append.mp rest with name | handler
      · exact nameReads_lt req index name
      · exact handlerReads_lt flags globals mem req index handler

/-- A short `RDMA_CONNECT` is read behind its arguments. -/
theorem requestReads_short {flags : Flags} {mem : Bytes} {req : RespRequest}
    (short : ShortConnect flags mem req) (globals : Globals Store) :
    4 ∈ requestReads flags globals mem req := by
  rw [requestReads, if_pos short.1, List.mem_append, List.mem_append]
  exact Or.inl (Or.inr (by decide))

/-- A request without arguments names no command. -/
theorem commandOf_argc {mem : Bytes} {req : RespRequest} {command : Command}
    (found : commandOf mem req = some command) :
    0 < req.argc := by
  rw [commandOf] at found
  split_ifs at found with positive
  exact positive

/-- The commands of the table refuse a request with too few arguments. -/
theorem kvsExecuteBatch_few {flags : Flags} {mem : Bytes}
    {req : RespRequest} {command : Command}
    (found : commandOf mem req = some command)
    (few : req.argc < minargc command.proc) (globals : Globals Store) :
    kvsExecuteBatch flags globals mem req (commandOf mem req) =
      (tick globals, RespReply.plain .parseError) := by
  rw [found]
  exact @run_few command.proc (nextCall flags globals mem req)
    (commandOf_argc found) few (tick globals)

/-- The loop body refuses a request with too few arguments. -/
theorem serveCommand_few {flags : Flags} {mem : Bytes}
    {cmdRawPtr singleCmdLen : Int}
    (whole : ¬ ShortConnect flags mem
      (respUnpackNoModify mem cmdRawPtr singleCmdLen))
    (few : TooFew flags mem
      (respUnpackNoModify mem cmdRawPtr singleCmdLen))
    (fd : Int) (session : Session Store) :
    (serveCommand (commandLayer flags) flags fd mem cmdRawPtr singleCmdLen
        session).wbuf =
        packReply session.wbuf (RespReply.plain .parseError) ∧
      (serveCommand (commandLayer flags) flags fd mem cmdRawPtr
        singleCmdLen session).globals.store.tables =
        session.globals.store.tables := by
  rw [serveCommand]
  generalize respUnpackNoModify mem cmdRawPtr singleCmdLen = req at *
  obtain ⟨least, needs, few⟩ := few
  rw [needed] at needs
  by_cases ping : requestIs mem req (ascii "PING") = true
  · rw [if_pos ping] at needs
    have positive := requestIs_argc ping
    cases needs
    omega
  · rw [if_neg ping] at needs
    by_cases connect : isRdmaConnect flags mem req = true
    · rw [if_pos connect] at needs
      cases needs
      exact absurd ⟨connect, few⟩ whole
    · rw [if_neg connect, Option.map_eq_some_iff] at needs
      obtain ⟨command, found, rfl⟩ := needs
      dsimp only
      rw [if_neg ping]
      rw [isRdmaConnect] at connect
      rw [if_neg connect]
      have executed := @kvsExecuteBatch_few flags mem req command found few
      dsimp only [commandLayer]
      rw [commandOf] at executed
      rw [executed]
      refine ⟨rfl, ?_⟩
      dsimp only [tick]
      split_ifs <;> rfl

/-- A request is handled within its arguments unless it is an `RDMA_CONNECT`
to a master with an argument missing. -/
theorem request_bounded_iff (flags : Flags) (fd : Int) (mem : Bytes)
    (cmdRawPtr singleCmdLen : Int) (session : Session Store) :
    Bounded flags fd mem cmdRawPtr singleCmdLen session ↔
      ¬ ShortConnect flags mem
        (respUnpackNoModify mem cmdRawPtr singleCmdLen) := by
  refine ⟨fun bounded short => ?_, fun whole => ⟨?_, ?_⟩⟩
  · have inside := bounded.inside 4 (requestReads_short short _)
    have missing := short.2
    omega
  · exact requestReads_lt whole session.globals
  · exact fun few => serveCommand_few whole few fd session

/-- A master. -/
def masterFlags : Flags :=
  { plainFlags with enableReplMaster := true }

/-- `RDMA_CONNECT` without arguments, sent to a master. -/
theorem rdmaConnect_unbounded :
    ¬ Bounded masterFlags 7 (respEncode [ascii "RDMA_CONNECT"]) 0
      (respEncode [ascii "RDMA_CONNECT"]).length
      (freshSession (fun _ => default)) := by
  intro bounded
  have short : ShortConnect masterFlags (respEncode [ascii "RDMA_CONNECT"])
      (respUnpackNoModify (respEncode [ascii "RDMA_CONNECT"]) 0
        (respEncode [ascii "RDMA_CONNECT"]).length) := by
    rw [ShortConnect]
    decide +kernel
  have inside := bounded.inside 4 (requestReads_short short _)
  have missing := short.2
  omega

end Kivo.Server.ArgumentBounds
