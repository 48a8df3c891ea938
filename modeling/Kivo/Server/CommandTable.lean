import Kivo.Server.Commands

/-!
# The command table

`g_cmd_table` lists the commands.  `kvs_cmd_init` enters them into an open
hash table of 64 slots, and `lookup_command` probes it with the name of a
request.  `kvs_execute_batch` runs the handler that was found.

A request is handed to the protocol layer as a `CommandLayer`.
-/

namespace Kivo.Server.CommandTable

open Kivo.Clib.Memory
open Kivo.Resp.Frame
open Kivo.Resp.Reply
open Kivo.Resp.Stream
open Kivo.Server.State
open Kivo.Server.Commands

/-! ## Handlers -/

/-- The functions that `command_t.proc` points to. -/
inductive Proc where
  | arraySet | arrayGet | arrayDel | arrayMod | arrayExists
  | rbtreeSet | rbtreeGet | rbtreeDel | rbtreeMod | rbtreeExists
  | hashSet | hashGet | hashDel | hashMod | hashExists
  | keep | match_
  | setctx | getctx | delctx
  | setrec | getrec | getidxrec
  | setidx | getidx
  | skipSet | skipGet | skipDel | skipMod | skipExists
  | zadd | zrange | zrangerec
  | sysSave | sysSync | sysSyncDone | sysMemtrim
deriving DecidableEq, Repr

/-- The handlers that work on the store alone. -/
def Proc.onStore : Proc → Option (Call → Store → Store × RespReply)
  | .arraySet => some cmdArraySet
  | .arrayGet => some cmdArrayGet
  | .arrayDel => some cmdArrayDel
  | .arrayMod => some cmdArrayMod
  | .arrayExists => some cmdArrayExists
  | .rbtreeSet => some cmdRbtreeSet
  | .rbtreeGet => some cmdRbtreeGet
  | .rbtreeDel => some cmdRbtreeDel
  | .rbtreeMod => some cmdRbtreeMod
  | .rbtreeExists => some cmdRbtreeExists
  | .hashSet => some cmdHashSet
  | .hashGet => some cmdHashGet
  | .hashDel => some cmdHashDel
  | .hashMod => some cmdHashMod
  | .hashExists => some cmdHashExists
  | .keep => some cmdKeep
  | .match_ => some cmdMatch
  | .setctx => some cmdSetctx
  | .getctx => some cmdGetctx
  | .delctx => some cmdDelctx
  | .setrec => some cmdSetrec
  | .getrec => some cmdGetrec
  | .getidxrec => some cmdGetidxrec
  | .setidx => some cmdSetidx
  | .getidx => some cmdGetidx
  | .skipSet => some cmdSkipSet
  | .skipGet => some cmdSkipGet
  | .skipDel => some cmdSkipDel
  | .skipMod => some cmdSkipMod
  | .skipExists => some cmdSkipExists
  | .zadd => some cmdZadd
  | .zrange => some cmdZrange
  | .zrangerec => some cmdZrangerec
  | .sysSave => some cmdSysSave
  | .sysMemtrim => some cmdSysMemtrim
  | .sysSync => none
  | .sysSyncDone => none

/-- Run a handler. -/
def Proc.run (proc : Proc) (call : Call) (globals : Globals Store) :
    Globals Store × RespReply :=
  match proc with
  | .sysSync => cmdSysSync globals
  | .sysSyncDone => cmdSysSyncDone globals
  | other =>
      match other.onStore with
      | some handler =>
          let result := handler call globals.store
          ({ globals with store := result.1 }, result.2)
      | none => (globals, RespReply.plain .error)

/-! ## The table -/

/-- `command_t`, without `minargc`, which nothing reads. -/
structure Command where
  name : Bytes
  proc : Proc
deriving DecidableEq, Repr

/-- `g_cmd_table`, without the closing null entry. -/
def gCmdTable : List Command :=
  [⟨ascii "SET", .arraySet⟩,
    ⟨ascii "GET", .arrayGet⟩,
    ⟨ascii "DEL", .arrayDel⟩,
    ⟨ascii "MOD", .arrayMod⟩,
    ⟨ascii "EXISTS", .arrayExists⟩,
    ⟨ascii "RSET", .rbtreeSet⟩,
    ⟨ascii "RGET", .rbtreeGet⟩,
    ⟨ascii "RDEL", .rbtreeDel⟩,
    ⟨ascii "RMOD", .rbtreeMod⟩,
    ⟨ascii "REXISTS", .rbtreeExists⟩,
    ⟨ascii "HSET", .hashSet⟩,
    ⟨ascii "HGET", .hashGet⟩,
    ⟨ascii "HDEL", .hashDel⟩,
    ⟨ascii "HMOD", .hashMod⟩,
    ⟨ascii "HEXISTS", .hashExists⟩,
    ⟨ascii "KEEP", .keep⟩,
    ⟨ascii "MATCH", .match_⟩,
    ⟨ascii "SETCTX", .setctx⟩,
    ⟨ascii "GETCTX", .getctx⟩,
    ⟨ascii "DELCTX", .delctx⟩,
    ⟨ascii "SETREC", .setrec⟩,
    ⟨ascii "GETREC", .getrec⟩,
    ⟨ascii "GETIDXREC", .getidxrec⟩,
    ⟨ascii "SETIDX", .setidx⟩,
    ⟨ascii "GETIDX", .getidx⟩,
    ⟨ascii "SSET", .skipSet⟩,
    ⟨ascii "SGET", .skipGet⟩,
    ⟨ascii "SDEL", .skipDel⟩,
    ⟨ascii "SMOD", .skipMod⟩,
    ⟨ascii "SEXISTS", .skipExists⟩,
    ⟨ascii "ZADD", .zadd⟩,
    ⟨ascii "ZRANGE", .zrange⟩,
    ⟨ascii "ZRANGEREC", .zrangerec⟩,
    ⟨ascii "SAVE", .sysSave⟩,
    ⟨ascii "SYNC", .sysSync⟩,
    ⟨ascii "SYNC_DONE", .sysSyncDone⟩,
    ⟨ascii "MEMTRIM", .sysMemtrim⟩]

/-- `CMD_HASH_SIZE`. -/
def cmdHashSize : Nat := 64

/-- `cmd_hash` of a name without its terminator. -/
def cmdHash (name : Bytes) : UInt32 :=
  name.foldl
    (fun hash byte => (hash <<< 5) + hash + (toUpper byte).toUInt32) 5381

/-- `hash & (CMD_HASH_SIZE - 1)`. -/
def cmdSlot (hash : UInt32) : Nat :=
  hash.toNat % cmdHashSize

/-- The slots of `g_cmd_hash`. -/
abbrev CmdHash : Type :=
  List (Option Command)

/-- The first free slot from an index on. -/
def freeSlot (slots : CmdHash) : Nat → Nat → Nat
  | 0, idx => idx
  | fuel + 1, idx =>
      if (slots[idx]?.join).isSome then
        freeSlot slots fuel ((idx + 1) % cmdHashSize)
      else idx

/-- One iteration of `kvs_cmd_init`. -/
def enterCommand (slots : CmdHash) (command : Command) : CmdHash :=
  slots.set (freeSlot slots cmdHashSize (cmdSlot (cmdHash command.name)))
    (some command)

/-- `g_cmd_hash` after `kvs_cmd_init`. -/
def gCmdHash : CmdHash :=
  gCmdTable.foldl enterCommand (List.replicate cmdHashSize none)

/-- The probing loop of `lookup_command`. -/
def probe (fits : Command → Bool) : Nat → Nat → Option Command
  | 0, _ => none
  | fuel + 1, idx =>
      match gCmdHash[idx]?.join with
      | none => none
      | some command =>
          if fits command then some command
          else probe fits fuel ((idx + 1) % cmdHashSize)

/-- `lookup_command`. -/
def lookupCommand (mem : Bytes) (name len : Int) : Option Command :=
  let compareLen :=
    if 0 < len then len
    else toInt32 (cString (bytesFrom mem name)).length
  let hash := cmdHash (cString (slice mem name compareLen))
  probe (fun command => nameIs mem name compareLen command.name)
    cmdHashSize (cmdSlot hash)

/-! ## Execution -/

/-- What the handler of the next command reads. -/
def nextCall (flags : Flags) (globals : Globals Store) (mem : Bytes)
    (req : RespRequest) : Call :=
  { flags := flags
    mem := mem
    req := req
    world := globals.store.worlds globals.store.ticks }

/-- The outside moves on. -/
def tick (globals : Globals Store) : Globals Store :=
  { globals with
    store := { globals.store with ticks := globals.store.ticks + 1 } }

/-- `kvs_execute_batch`, which executes one command. -/
def kvsExecuteBatch (flags : Flags) (globals : Globals Store) (mem : Bytes)
    (req : RespRequest) (cmd : Option Command) :
    Globals Store × RespReply :=
  match cmd with
  | some command =>
      command.proc.run (nextCall flags globals mem req) (tick globals)
  | none => (tick globals, RespReply.plain .unknown)

/-- The command layer of the server. -/
def commandLayer (flags : Flags) : CommandLayer Command Store :=
  { lookupCommand := lookupCommand
    handler := kvsExecuteBatch flags }

end Kivo.Server.CommandTable
