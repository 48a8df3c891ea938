import Kivo.Engine.Maps
import Kivo.Server.Changes

/-!
# The server as a machine

A request is a canonical frame in the receive buffer of a connection.  The
server answers it with bytes and moves on.  With the TTL switched off, the
answers of the reading commands are read off the maps of the tables, and a
request changes the maps at the keys it is about.
-/

namespace Kivo.Server.Serving

open Kivo.Clib.Memory
open Kivo.Clib.Numeral
open Kivo.Engine.Data
open Kivo.Engine.KeyMap
open Kivo.Engine.HashEngine
open Kivo.Engine.SkipEngine
open Kivo.Engine.SkipRuns (Level)
open Kivo.Engine.Store
open Kivo.Engine.Maps
open Kivo.Resp.Frame
open Kivo.Resp.Canonical
open Kivo.Resp.Reply
open Kivo.Resp.Stream
open Kivo.Server.State
open Kivo.Server.Commands
open Kivo.Server.CommandTable
open Kivo.Server.Requests
open Kivo.Server.Handlers
open Kivo.Server.Alignment
open Kivo.Server.Changes

/-! ## Requests -/

/-- A canonical frame in the receive buffer of a connection. -/
structure Request where
  fd : Int
  mem : Bytes
  address : Int
  args : List Bytes
  stored : Holds mem address (respEncode args)
  small : (respEncode args).length < 2 ^ 31

/-- A write buffer without bytes. -/
def emptyBuffer : WriteBuffer :=
  { bytes := [], wcap := 0, wlen := 0, overrun := false }

/-- The loop body of `protocol_process_stream` on a request, with the bytes it
answers. -/
def serverStep (flags : Flags) (globals : Globals Store)
    (request : Request) : Globals Store × Bytes :=
  let session := serveCommand (commandLayer flags) flags request.fd
    request.mem request.address (respEncode request.args).length
    { globals := globals, wbuf := some emptyBuffer, executed := [] }
  (session.globals, written session)

/-- The request is a call of a handler. -/
def Executes (args : List Bytes) (proc : Proc) : Prop :=
  ∃ command, commandNamed (args.getD 0 []) = some command ∧
    command.proc = proc

/-- What the handler of a request reads. -/
def Request.call (flags : Flags) (request : Request)
    (globals : Globals Store) : Call :=
  callOf flags request.mem request.address request.args globals

theorem Request.arrived (request : Request) (flags : Flags)
    (globals : Globals Store) :
    Arrived (request.call flags globals).mem (request.call flags globals).req
      request.args :=
  arrived_encode request.stored request.small

/-- A request that calls a handler is that call. -/
theorem serverStep_run (flags : Flags) (globals : Globals Store)
    {request : Request} {proc : Proc}
    (executes : Executes request.args proc) :
    ∃ before : Globals Store,
      before.store = (tick globals).store ∧
        serverStep flags globals request =
          ((proc.run (request.call flags globals) before).1,
            respPack (proc.run (request.call flags globals) before).2) := by
  obtain ⟨command, found, rfl⟩ := executes
  have plain : ¬ (sameName (request.args.getD 0 []) (ascii "PING") = true ∨
      (flags.enableReplMaster &&
        sameName (request.args.getD 0 []) (ascii "RDMA_CONNECT")) = true) := by
    intro special
    rw [(special_foreign special).1] at found
    cases found
  obtain ⟨ping, rdma⟩ := not_or.mp plain
  rw [Bool.not_eq_true] at ping rdma
  refine ⟨tick (prepared flags request.fd request.mem
    (respUnpackNoModify request.mem request.address
      (respEncode request.args).length) request.args globals), ?_, ?_⟩
  · rw [tick, prepared_store]
    rfl
  · rw [serverStep, serveCommand_encode flags request.fd request.stored
      request.small ping rdma]
    dsimp only
    rw [found, Request.call, callOf, nextCall]
    rw [kvsExecuteBatch, nextCall, prepared_store]
    rfl

/-- The answer to a request that calls a handler. -/
theorem serverStep_answer (flags : Flags) (globals : Globals Store)
    {request : Request} {proc : Proc}
    (executes : Executes request.args proc) :
    ∃ before : Globals Store,
      before.store = (tick globals).store ∧
        (serverStep flags globals request).2 =
          respPack
            (proc.run (request.call flags globals) before).2 := by
  obtain ⟨before, store, ran⟩ := serverStep_run flags globals executes
  exact ⟨before, store, congrArg Prod.snd ran⟩

/-- A request changes the tables as its arguments say. -/
theorem serverStep_tables {flags : Flags} (off : flags.enableTtl = false)
    (globals : Globals Store) (request : Request) :
    (serverStep flags globals request).1.store.tables =
      Call.after (request.call flags globals) request.args
        globals.store.tables :=
  serveCommand_tables request.stored request.small request.fd (Or.inl off)
    _

theorem serverStep_valid {flags : Flags} (off : flags.enableTtl = false)
    {globals : Globals Store} (valid : Valid globals.store.tables)
    (request : Request) :
    Valid (serverStep flags globals request).1.store.tables := by
  rw [serverStep_tables off]
  exact Change.apply_valid _ valid _

/-! ## Families of commands -/

/-- The commands without a prefix and those with the prefixes `R`, `H` and
`S`. -/
inductive Family where
  | array
  | rbtree
  | hash
  | skip
deriving DecidableEq, Repr

/-- The table of a family. -/
def Family.table : Family → Table
  | .array => .array
  | .rbtree => .rbtree
  | .hash => .hash .hash
  | .skip => .skip

def Family.setProc : Family → Proc
  | .array => .arraySet
  | .rbtree => .rbtreeSet
  | .hash => .hashSet
  | .skip => .skipSet

def Family.getProc : Family → Proc
  | .array => .arrayGet
  | .rbtree => .rbtreeGet
  | .hash => .hashGet
  | .skip => .skipGet

def Family.delProc : Family → Proc
  | .array => .arrayDel
  | .rbtree => .rbtreeDel
  | .hash => .hashDel
  | .skip => .skipDel

def Family.modProc : Family → Proc
  | .array => .arrayMod
  | .rbtree => .rbtreeMod
  | .hash => .hashMod
  | .skip => .skipMod

def Family.existsProc : Family → Proc
  | .array => .arrayExists
  | .rbtree => .rbtreeExists
  | .hash => .hashExists
  | .skip => .skipExists

/-- The five commands of a family. -/
inductive Kind where
  | set
  | get
  | del
  | mod
  | exist
deriving DecidableEq, Repr

/-- The handler of a command of a family. -/
def Family.handler (family : Family) : Kind → Proc
  | .set => family.setProc
  | .get => family.getProc
  | .del => family.delProc
  | .mod => family.modProc
  | .exist => family.existsProc

/-- The call that a handler makes on its table, unless it is misused. -/
def Kind.operation (call : Call) : Kind → Option Operation
  | .set =>
      if call.argc < 3 then none
      else some (.set (call.arg 1) (call.arg 2) (expireOf call))
  | .get =>
      if call.argc < 2 then none
      else some (.get (call.world.now 0) (call.arg 1))
  | .del => if call.argc < 2 then none else some (.del (call.arg 1))
  | .mod =>
      if call.argc < 3 then none
      else some (.mod (call.arg 1) (call.arg 2) 0)
  | .exist =>
      if call.argc < 2 then none
      else some (.exist (call.world.now 0) (call.arg 1))

/-- The reply that a handler makes of the answer of its table. -/
def Kind.reply (answer : Answer) : Kind → RespReply
  | .set => statusReply (codeOf answer) .ok .error
  | .get => kvsSetReplyBody (foundOf answer)
  | .del => statusReply (codeOf answer) .ok .noExists
  | .mod => statusReply (codeOf answer) .ok .noExists
  | .exist => statusReply (codeOf answer) .keyExists .noExists

/-- What a handler does to the tables, and what it replies. -/
theorem Family.run_handler (family : Family) (kind : Kind) (call : Call)
    (globals : Globals Store) :
    match kind.operation call with
    | none =>
        ((family.handler kind).run call globals).1.store.tables =
            globals.store.tables ∧
          ((family.handler kind).run call globals).2 =
            RespReply.plain .parseError
    | some operation =>
        ((family.handler kind).run call globals).1.store.tables =
            (globals.store.tables.operate call.flags.enableTtl
              call.world.level family.table operation).1 ∧
          ((family.handler kind).run call globals).2 =
            kind.reply (globals.store.tables.operate call.flags.enableTtl
              call.world.level family.table operation).2 := by
  cases kind with
  | set =>
      cases family <;>
        · simp only [Kind.operation, Family.handler, Family.setProc, Proc.run,
            Proc.onStore, cmdArraySet, cmdRbtreeSet, cmdHashSet, cmdSkipSet,
            timedSetting]
          split_ifs <;> exact ⟨rfl, rfl⟩
  | get =>
      cases family <;>
        · simp only [Kind.operation, Family.handler, Family.getProc, Proc.run,
            Proc.onStore, cmdArrayGet, cmdRbtreeGet, cmdHashGet, cmdSkipGet,
            reading, decide_eq_true_eq]
          split_ifs <;> exact ⟨rfl, rfl⟩
  | del =>
      cases family <;>
        · simp only [Kind.operation, Family.handler, Family.delProc, Proc.run,
            Proc.onStore, cmdArrayDel, cmdRbtreeDel, cmdHashDel, cmdSkipDel,
            deleting, decide_eq_true_eq]
          split_ifs <;> exact ⟨rfl, rfl⟩
  | mod =>
      cases family <;>
        · simp only [Kind.operation, Family.handler, Family.modProc, Proc.run,
            Proc.onStore, cmdArrayMod, cmdRbtreeMod, cmdHashMod, cmdSkipMod,
            modifying]
          split_ifs <;> exact ⟨rfl, rfl⟩
  | exist =>
      cases family <;>
        · simp only [Kind.operation, Family.handler, Family.existsProc,
            Proc.run, Proc.onStore, cmdArrayExists, cmdRbtreeExists,
            cmdHashExists, cmdSkipExists, testing]
          split_ifs <;> exact ⟨rfl, rfl⟩

section Answers

variable {flags : Flags} {globals : Globals Store} {request : Request}
  {family : Family}

theorem Family.run_get (call : Call) (before : Globals Store) :
    (family.getProc.run call before).2 =
      (reading (decide (call.argc < 2)) family.table call before.store).2 := by
  cases family <;> rfl

theorem Family.run_exists (call : Call) (before : Globals Store) :
    (family.existsProc.run call before).2 =
      (testing family.table call before.store).2 := by
  cases family <;> rfl

/-- The reply of a set tells what the table returned. -/
theorem Family.run_set (call : Call) (before : Globals Store)
    (enough : ¬ call.argc < 3) :
    (family.setProc.run call before).2 =
      statusReply
        (codeOf (before.store.operate call family.table
          (.set (call.arg 1) (call.arg 2) (expireOf call))).2) .ok .error := by
  cases family with
  | array =>
      change (cmdArraySet call before.store).2 = _
      rw [cmdArraySet, if_neg enough]
      rfl
  | rbtree =>
      change (timedSetting .rbtree call before.store).2 = _
      rw [timedSetting, if_neg enough]
      rfl
  | hash =>
      change (timedSetting .hash call before.store).2 = _
      rw [timedSetting, if_neg enough]
      rfl
  | skip =>
      change (timedSetting .skiplist call before.store).2 = _
      rw [timedSetting, if_neg enough]
      rfl

/-- The number of arguments of a request, as its handler sees it. -/
theorem Request.argc_of_le {count : Nat}
    (enough : count ≤ request.args.length) :
    ¬ (request.call flags globals).argc < count := by
  rw [argc_lt (request.arrived flags globals), decide_eq_true_iff]
  exact Nat.not_lt_of_le enough

section Request

variable (off : flags.enableTtl = false)
  (valid : Valid globals.store.tables)

include off valid

/-- What a reading command answers. -/
theorem get_answer (executes : Executes request.args family.getProc)
    (enough : 2 ≤ request.args.length) :
    (serverStep flags globals request).2 =
      respPack (kvsSetReplyBody
        ((Tables.map globals.store.tables family.table
          (request.args.getD 1 [])).map Item.value)) := by
  obtain ⟨before, store, answer⟩ :=
    serverStep_answer flags globals executes
  have counted : decide ((request.call flags globals).argc < 2) = false :=
    decide_eq_false (Request.argc_of_le enough)
  have read := operate_map valid false
    (request.call flags globals).world.level family.table
    (show Operation.Sets (.get ((request.call flags globals).world.now 0)
      (request.args.getD 1 [])) → _ from fun sets => absurd sets id)
  rw [answer, Family.run_get, store, counted, reading,
    if_neg Bool.false_ne_true]
  dsimp only [Store.operate, tick]
  rw [show (request.call flags globals).flags.enableTtl = false from off,
    arg_eq (request.arrived flags globals), congrArg Prod.snd read,
    Contents.step, purge_false]
  rfl

/-- What a testing command answers. -/
theorem exists_answer (executes : Executes request.args family.existsProc)
    (enough : 2 ≤ request.args.length) :
    (serverStep flags globals request).2 =
      respPack (RespReply.plain
        (if (Tables.map globals.store.tables family.table
            (request.args.getD 1 [])).isSome then .keyExists
        else .noExists)) := by
  obtain ⟨before, store, answer⟩ :=
    serverStep_answer flags globals executes
  have read := operate_map valid false
    (request.call flags globals).world.level family.table
    (show Operation.Sets (.exist ((request.call flags globals).world.now 0)
      (request.args.getD 1 [])) → _ from fun sets => absurd sets id)
  have counted : ¬ (request.call flags globals).argc < 2 :=
    Request.argc_of_le enough
  rw [answer, Family.run_exists, store, testing, if_neg counted]
  dsimp only [Store.operate, tick]
  rw [show (request.call flags globals).flags.enableTtl = false from off,
    arg_eq (request.arrived flags globals), congrArg Prod.snd read,
    Contents.step, purge_false, statusReply]
  dsimp only [codeOf]
  split_ifs with present <;> first | rfl | contradiction

/-- A set that was answered with `+OK` found room. -/
theorem set_room (executes : Executes request.args family.setProc)
    (enough : 3 ≤ request.args.length)
    (answered : (serverStep flags globals request).2 = ascii "+OK\r\n") :
    ¬ Refuses globals.store.tables (request.args.getD 1 []) family.table := by
  intro refused
  obtain ⟨before, store, answer⟩ :=
    serverStep_answer flags globals executes
  have error := operate_refused valid false
    (request.call flags globals).world.level
    (show Operation.Sets (.set (request.args.getD 1 [])
      (request.args.getD 2 []) (expireOf (request.call flags globals)))
      from trivial) refused
  rw [answer, Family.run_set _ _ (Request.argc_of_le enough), store]
    at answered
  dsimp only [Store.operate, tick] at answered
  rw [show (request.call flags globals).flags.enableTtl = false from off,
    arg_eq (request.arrived flags globals),
    arg_eq (request.arrived flags globals), error] at answered
  have refusal : respPack (statusReply (-1) .ok .error) =
      ascii "+OK\r\n" :=
    answered
  exact absurd refusal (by decide)

end Request

end Answers

/-! ## Which keys a request is about -/

/-- A change is about a key of a table. -/
def Change.AtKey (table : Table) (key : Bytes) : Change → Prop
  | .keep => False
  | .operate own operation => own = table ∧ operation.key = key
  | .append own _ => table = .hash .hash4 ∧ own = key
  | .zadd timestamp id => table = .skip ∧ zsetKey timestamp id = some key

/-- A change leaves the keys alone that it is not about. -/
theorem Change.apply_frame (change : Change) {tables : Tables}
    (valid : Valid tables) (level : Level) {table : Table} {key : Bytes}
    (apart : ¬ Change.AtKey table key change) :
    Tables.map (change.apply level tables) table key =
      Tables.map tables table key := by
  cases change with
  | keep => rfl
  | operate own operation =>
      refine operate_frame valid false level own table operation ?_
      rintro rfl rfl
      exact apart ⟨rfl, rfl⟩
  | append own id =>
      by_cases here : table = .hash .hash4
      · subst here
        have other : key ≠ own := fun same => apart ⟨rfl, same.symm⟩
        simp only [Tables.map, Tables.keyed, Tables.entries, Change.apply,
          Function.update_self]
        exact kvsHashAppend_frame (valid.hashes .hash4) 0 other id
      · cases table with
        | array => rfl
        | rbtree => rfl
        | hash name =>
            have different : name ≠ .hash4 := by
              rintro rfl
              exact here rfl
            simp only [Tables.map, Tables.keyed, Tables.entries,
              Change.apply, Function.update_of_ne different]
        | skip => rfl
  | zadd timestamp id =>
      cases table with
      | array => rfl
      | rbtree => rfl
      | hash name => rfl
      | skip =>
          have added := kvsZsetAdd_contents valid.skip timestamp id level
          simp only [Tables.map, Tables.keyed, Tables.entries, Change.apply]
          rw [added]
          cases made : zsetKey timestamp id with
          | none => rfl
          | some own =>
              refine if_neg ?_
              rintro rfl
              exact apart ⟨rfl, made⟩

/-- The table whose key, named by the first argument, a handler changes. -/
def Proc.target : Proc → Option Table
  | .arraySet | .arrayDel | .arrayMod => some .array
  | .rbtreeSet | .rbtreeDel | .rbtreeMod => some .rbtree
  | .hashSet | .hashDel | .hashMod => some (.hash .hash)
  | .keep => some (.hash .hash1)
  | .setctx | .delctx => some (.hash .hash2)
  | .setrec => some (.hash .hash3)
  | .setidx => some (.hash .hash4)
  | .skipSet | .skipDel | .skipMod => some .skip
  | _ => none

/-- A `ZADD` that stores an id under a key. -/
def AddsKey (args : List Bytes) (key : Bytes) : Prop :=
  Executes args .zadd ∧ args.length = 3 ∧ 0 < strtoll (args.getD 1 []) ∧
    zsetKey (strtoll (args.getD 1 [])) (args.getD 2 []) = some key

theorem atKey_unless {misused : Bool} {change : Change} {table : Table}
    {key : Bytes}
    (about : Change.AtKey table key (Change.unless misused change)) :
    misused = false ∧ Change.AtKey table key change := by
  rw [Change.unless] at about
  split_ifs at about with wrong
  · exact absurd about id
  · exact ⟨Bool.eq_false_iff.mpr wrong, about⟩

/-- A handler changes the key named by the first argument, or adds to the time
index. -/
theorem Proc.change_atKey {proc : Proc} {args : List Bytes}
    {expire context : Int} {table : Table} {key : Bytes}
    (about : Change.AtKey table key (Proc.change args expire context proc)) :
    (Proc.target proc = some table ∧ args.getD 1 [] = key) ∨
      (proc = .zadd ∧ table = .skip ∧ args.length = 3 ∧
        0 < strtoll (args.getD 1 []) ∧
        zsetKey (strtoll (args.getD 1 [])) (args.getD 2 []) = some key) := by
  cases proc with
  | zadd =>
      obtain ⟨three, inner⟩ := atKey_unless about
      obtain ⟨positive, skip, made⟩ := atKey_unless inner
      refine Or.inr ⟨rfl, skip, ?_, ?_, made⟩
      · exact not_not.mp (of_decide_eq_false three)
      · exact Int.not_le.mp (of_decide_eq_false positive)
  | setidx =>
      obtain ⟨-, here, same⟩ := atKey_unless about
      exact Or.inl ⟨by rw [here]; rfl, same⟩
  | arraySet | arrayDel | arrayMod | rbtreeSet | rbtreeDel | rbtreeMod
  | hashSet | hashDel | hashMod | keep | setctx | delctx | setrec
  | skipSet | skipDel | skipMod =>
      obtain ⟨-, here, same⟩ := atKey_unless about
      exact Or.inl ⟨by rw [← here]; rfl, same⟩
  | _ => exact absurd about id

end Kivo.Server.Serving
