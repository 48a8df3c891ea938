import Kivo.Server.Expire

/-!
# The command handlers

Every handler of `kvstore.c` takes a request and fills in a reply.  A handler
sees its arguments as slices of the receive buffer; where it reads a number it
hands `atoll` the address of the argument, and `atoll` does not know where the
argument ends.  A slice of negative length is empty here, where the source may
copy without end; what is proved about whole requests is about canonical
frames, in which no length is negative.

What a command finds outside the process is a parameter: the clock, the level
that `random_level` draws, the stack under `expire_push_cmd`, the embedding
service behind `KEEP` and `MATCH`, and the child process of `SAVE`.
-/

namespace Kivo.Server.Commands

open Kivo.Clib.Memory
open Kivo.Clib.Numeral
open Kivo.Engine.Data
open Kivo.Engine.KeyMap
open Kivo.Engine.HashEngine
open Kivo.Engine.SkipEngine
open Kivo.Engine.SkipRuns (Level)
open Kivo.Engine.Store
open Kivo.Resp.Frame
open Kivo.Resp.Reply
open Kivo.Resp.Stream
open Kivo.Server.State
open Kivo.Server.Expire

/-! ## State -/

/--
What a command finds outside the process: the successive results of
`get_current_ms`, the result of `time`, the level that `random_level` draws,
what lies on the stack, whether `ai_text_to_vector` succeeds, the index of the
best entry above the threshold, whether `waitpid` reports the end of the child,
and whether `fork` succeeds.
-/
structure World where
  now : Nat → Int
  time : Int
  level : Level
  stack : UInt64
  vector : Bool
  best : Option Nat
  childEnded : Bool
  forked : Bool
deriving Inhabited

/--
What lies behind the protocol layer: the tables, the expire system, the keys of
`global_vector_index`, whether `g_save_pid` names a child, and what the
commands to come find outside the process.
-/
structure Store where
  tables : Tables
  expire : ExpireSystem
  vectorIndex : List Bytes
  savePid : Bool
  worlds : Nat → World
  ticks : Nat

/-- The store after `init_kvengine`. -/
def Store.create (worlds : Nat → World) : Store :=
  { tables := Tables.create
    expire := expireSystemInit
    vectorIndex := []
    savePid := false
    worlds := worlds
    ticks := 0 }

/-- What a handler reads: the flags, the request in its buffer and the
outside. -/
structure Call where
  flags : Flags
  mem : Bytes
  req : RespRequest
  world : World

/-- `req->argc`. -/
def Call.argc (call : Call) : Int :=
  call.req.argc

/-- The `argv_len[index]` bytes at `argv[index]`. -/
def Call.arg (call : Call) (index : Nat) : Bytes :=
  call.req.arg call.mem index

/-- `atoll(req->argv[index])`. -/
def Call.number (call : Call) (index : Nat) : Int :=
  atoll (bytesFrom call.mem (call.req.argv.getD index 0))

/-- The test of an argument against a keyword. -/
def Call.argIs (call : Call) (index : Nat) (keyword : Bytes) : Bool :=
  nameIs call.mem (call.req.argv.getD index 0)
    (call.req.argvLen.getD index 0) keyword

/-- The `int` a call returned. -/
def codeOf : Answer → Int
  | .status code => code
  | .value _ => 0

/-- What the pointer a call returned leads to. -/
def foundOf : Answer → Option Bytes
  | .status _ => none
  | .value found => found

/-- A call on one table. -/
def Store.operate (call : Call) (table : Table) (operation : Operation)
    (store : Store) : Store × Answer :=
  let result := store.tables.operate call.flags.enableTtl call.world.level
    table operation
  ({ store with tables := result.1 }, result.2)

/-! ## Expiry times -/

/-- `parse_ttl`. -/
def parseTtl (call : Call) : Int :=
  let now := call.world.now 0
  if call.argc < 4 then 0
  else if 5 ≤ call.argc ∧ call.argIs 3 (ascii "EX") then
    let sec := call.number 4
    if 0 < sec then toInt64 (now + toInt64 (sec * 1000)) else 0
  else if 5 ≤ call.argc ∧ call.argIs 3 (ascii "PX") then
    let ms := call.number 4
    if 0 < ms then toInt64 (now + ms) else 0
  else
    let val := call.number 3
    if val ≤ 0 then 0
    else if val < 1000000000 then toInt64 (now + val * 1000)
    else val

/-! ## Replies -/

/-- `kvs_set_reply_body`: an empty value counts as missing. -/
def kvsSetReplyBody (result : Option Bytes) : RespReply :=
  match result with
  | none => RespReply.plain .noExists
  | some value =>
      if 0 < value.length then RespReply.bulk value
      else RespReply.plain .noExists

/-- `(ret == 0) ? passed : failed`. -/
def statusReply (ret : Int) (passed failed : KvsStatus) : RespReply :=
  RespReply.plain (if ret = 0 then passed else failed)

/-- The reply to a wrong number of arguments. -/
def parseError (store : Store) : Store × RespReply :=
  (store, RespReply.plain .parseError)

/-! ## The four engines -/

/-- The shape of the reading handlers. -/
def reading (misused : Bool) (table : Table) (call : Call) (store : Store) :
    Store × RespReply :=
  if misused then parseError store
  else
    let result :=
      store.operate call table (.get (call.world.now 0) (call.arg 1))
    (result.1, kvsSetReplyBody (foundOf result.2))

/-- The shape of the deleting handlers. -/
def deleting (misused : Bool) (table : Table) (call : Call) (store : Store) :
    Store × RespReply :=
  if misused then parseError store
  else
    let result := store.operate call table (.del (call.arg 1))
    (result.1, statusReply (codeOf result.2) .ok .noExists)

/-- The shape of the modifying handlers, which store without an expiry
time. -/
def modifying (table : Table) (call : Call) (store : Store) :
    Store × RespReply :=
  if call.argc < 3 then parseError store
  else
    let result := store.operate call table (.mod (call.arg 1) (call.arg 2) 0)
    (result.1, statusReply (codeOf result.2) .ok .noExists)

/-- The shape of the handlers that test for a key. -/
def testing (table : Table) (call : Call) (store : Store) :
    Store × RespReply :=
  if call.argc < 2 then parseError store
  else
    let result :=
      store.operate call table (.exist (call.world.now 0) (call.arg 1))
    (result.1, statusReply (codeOf result.2) .keyExists .noExists)

/-- The expiry time a setting handler stores. -/
def expireOf (call : Call) : Int :=
  if call.flags.enableTtl then parseTtl call else 0

/-- Hand the timer of a key to the expire system. -/
def Store.pushTimer (call : Call) (type : ExpireType) (key : Bytes)
    (expire : Int) (store : Store) : Store :=
  { store with
    expire := expirePushCmd call.world.stack type key expire store.expire }

/-- The shape of the setting handlers that guard their timer. -/
def timedSetting (type : ExpireType) (call : Call) (store : Store) :
    Store × RespReply :=
  if call.argc < 3 then parseError store
  else
    let expire := expireOf call
    let result := store.operate call type.table
      (.set (call.arg 1) (call.arg 2) expire)
    let ret := codeOf result.2
    (if call.flags.enableTtl ∧ ret = 0 ∧ 0 < expire then
        result.1.pushTimer call type (call.arg 1) expire
      else result.1,
      statusReply ret .ok .error)

/-- `cmd_array_set`: the timer is handed over whatever the expiry time is. -/
def cmdArraySet (call : Call) (store : Store) : Store × RespReply :=
  if call.argc < 3 then parseError store
  else
    let expire := expireOf call
    let result := store.operate call .array
      (.set (call.arg 1) (call.arg 2) expire)
    let ret := codeOf result.2
    (if call.flags.enableTtl ∧ ret = 0 then
        result.1.pushTimer call .array (call.arg 1) expire
      else result.1,
      statusReply ret .ok .error)

/-- `cmd_array_get`. -/
def cmdArrayGet (call : Call) : Store → Store × RespReply :=
  reading (decide (call.argc < 2)) .array call

/-- `cmd_array_del`. -/
def cmdArrayDel (call : Call) : Store → Store × RespReply :=
  deleting (decide (call.argc < 2)) .array call

/-- `cmd_array_mod`. -/
def cmdArrayMod : Call → Store → Store × RespReply :=
  modifying .array

/-- `cmd_array_exists`. -/
def cmdArrayExists : Call → Store → Store × RespReply :=
  testing .array

/-- `cmd_rbtree_set`. -/
def cmdRbtreeSet : Call → Store → Store × RespReply :=
  timedSetting .rbtree

/-- `cmd_rbtree_get`. -/
def cmdRbtreeGet (call : Call) : Store → Store × RespReply :=
  reading (decide (call.argc < 2)) .rbtree call

/-- `cmd_rbtree_del`. -/
def cmdRbtreeDel (call : Call) : Store → Store × RespReply :=
  deleting (decide (call.argc < 2)) .rbtree call

/-- `cmd_rbtree_mod`. -/
def cmdRbtreeMod : Call → Store → Store × RespReply :=
  modifying .rbtree

/-- `cmd_rbtree_exists`. -/
def cmdRbtreeExists : Call → Store → Store × RespReply :=
  testing .rbtree

/-- `cmd_hash_set`. -/
def cmdHashSet : Call → Store → Store × RespReply :=
  timedSetting .hash

/-- `cmd_hash_get`. -/
def cmdHashGet (call : Call) : Store → Store × RespReply :=
  reading (decide (call.argc < 2)) (.hash .hash) call

/-- `cmd_hash_del`. -/
def cmdHashDel (call : Call) : Store → Store × RespReply :=
  deleting (decide (call.argc < 2)) (.hash .hash) call

/-- `cmd_hash_mod`. -/
def cmdHashMod : Call → Store → Store × RespReply :=
  modifying (.hash .hash)

/-- `cmd_hash_exists`. -/
def cmdHashExists : Call → Store → Store × RespReply :=
  testing (.hash .hash)

/-- `cmd_skip_set`. -/
def cmdSkipSet : Call → Store → Store × RespReply :=
  timedSetting .skiplist

/-- `cmd_skip_get`. -/
def cmdSkipGet (call : Call) : Store → Store × RespReply :=
  reading (decide (call.argc < 2)) .skip call

/-- `cmd_skip_del`. -/
def cmdSkipDel (call : Call) : Store → Store × RespReply :=
  deleting (decide (call.argc < 2)) .skip call

/-- `cmd_skip_mod`. -/
def cmdSkipMod : Call → Store → Store × RespReply :=
  modifying .skip

/-- `cmd_skip_exists`. -/
def cmdSkipExists : Call → Store → Store × RespReply :=
  testing .skip

/-! ## System commands -/

/-- `cmd_sys_save`; the child writes its snapshot on its own. -/
def cmdSysSave (call : Call) (store : Store) : Store × RespReply :=
  if call.argc ≠ 1 then parseError store
  else if store.savePid ∧ ¬ call.world.childEnded then
    (store, RespReply.plain .err)
  else if call.world.forked then
    ({ store with savePid := true }, RespReply.plain .success)
  else ({ store with savePid := false }, RespReply.plain .err)

/-- `cmd_sys_memtrim`; trimming gives back memory and changes no data. -/
def cmdSysMemtrim (call : Call) (store : Store) : Store × RespReply :=
  if call.argc ≠ 1 then parseError store
  else (store, RespReply.plain .ok)

/-- `cmd_sys_sync`: the backlog is opened and emptied, the file transfer goes
to the slave, and the reply keeps the status it came with. -/
def cmdSysSync (globals : Globals Store) : Globals Store × RespReply :=
  ({ globals with
      repl := { globals.repl with backlogEnabled := true, count := 0 } },
    RespReply.plain .error)

/-- `cmd_sys_sync_done`. -/
def cmdSysSyncDone (globals : Globals Store) : Globals Store × RespReply :=
  ({ globals with
      repl :=
        { globals.repl with syncFileDone := true, backlogEnabled := false } },
    RespReply.plain .error)

/-! ## The semantic cache -/

/-- `MAX_VECTOR_INDEX`. -/
def maxVectorIndex : Nat := 10000

/-- `MAX_KEY_LEN`. -/
def maxKeyLen : Nat := 128

/-- `keep_build_index`; `none` is the return value `-1`. -/
def keepBuildIndex (call : Call) (key : Bytes) (index : List Bytes) :
    Option (List Bytes) :=
  if ¬ call.world.vector then none
  else if maxVectorIndex ≤ index.length then none
  else some (index ++ [(cString key).take (maxKeyLen - 1)])

/-- `cmd_keep`. -/
def cmdKeep (call : Call) (store : Store) : Store × RespReply :=
  if call.argc < 3 then parseError store
  else
    let result := store.operate call (.hash .hash1)
      (.set (call.arg 1) (call.arg 2) 0)
    if codeOf result.2 ≠ 0 then (result.1, RespReply.plain .error)
    else
      match keepBuildIndex call (call.arg 1) store.vectorIndex with
      | none => (result.1, RespReply.plain .error)
      | some index =>
          ({ result.1 with vectorIndex := index }, RespReply.plain .ok)

/-- What `match_find_best_key` returns: `-1`, `1`, or `0` with a key. -/
inductive BestKey where
  | failed
  | missing
  | found (key : Bytes)
deriving DecidableEq, Repr

/-- `match_find_best_key`. -/
def matchFindBestKey (call : Call) (index : List Bytes) : BestKey :=
  if index.length = 0 then .missing
  else if ¬ call.world.vector then .failed
  else
    match call.world.best.bind (fun position => index[position]?) with
    | none => .missing
    | some key => .found key

/-- `cmd_match` with `match_find_answer`. -/
def cmdMatch (call : Call) (store : Store) : Store × RespReply :=
  if call.argc ≠ 2 then parseError store
  else
    match matchFindBestKey call store.vectorIndex with
    | .failed => (store, RespReply.plain .error)
    | .missing => (store, RespReply.plain .noExists)
    | .found key =>
        let result := store.operate call (.hash .hash1)
          (.get (call.world.now 0) key)
        let answer := (foundOf result.2).getD []
        if answer.length = 0 then (result.1, RespReply.plain .error)
        else (result.1, RespReply.bulk answer)

/-! ## Contexts, records and indices -/

/-- The expiry time that `cmd_setctx` stores, with or without TTL. -/
def contextExpire (call : Call) : Int :=
  let ttlSec := call.number 3
  if 0 < ttlSec then
    toInt64 (toInt64 (call.world.time * 1000) + toInt64 (ttlSec * 1000))
  else 0

/-- `cmd_setctx`. -/
def cmdSetctx (call : Call) (store : Store) : Store × RespReply :=
  if call.argc < 4 then parseError store
  else
    let expire := contextExpire call
    let result := store.operate call (.hash .hash2)
      (.set (call.arg 1) (call.arg 2) expire)
    if codeOf result.2 ≠ 0 then (result.1, RespReply.plain .error)
    else
      (if call.flags.enableTtl ∧ 0 < expire then
          result.1.pushTimer call .hash2 (call.arg 1) expire
        else result.1,
        RespReply.plain .ok)

/-- `cmd_getctx`. -/
def cmdGetctx (call : Call) : Store → Store × RespReply :=
  reading (decide (call.argc ≠ 2)) (.hash .hash2) call

/-- `cmd_delctx`. -/
def cmdDelctx (call : Call) : Store → Store × RespReply :=
  deleting (decide (call.argc ≠ 2)) (.hash .hash2) call

/-- `cmd_setrec`. -/
def cmdSetrec (call : Call) (store : Store) : Store × RespReply :=
  if call.argc ≠ 3 then parseError store
  else
    let result := store.operate call (.hash .hash3)
      (.set (call.arg 1) (call.arg 2) 0)
    (result.1, statusReply (codeOf result.2) .ok .error)

/-- `cmd_getrec`. -/
def cmdGetrec (call : Call) : Store → Store × RespReply :=
  reading (decide (call.argc ≠ 2)) (.hash .hash3) call

/-- Replace one hash table. -/
def Store.setHash (name : HashName) (hash : KvsHash) (store : Store) :
    Store :=
  { store with
    tables :=
      { store.tables with
        hashes := Function.update store.tables.hashes name hash } }

/-- `cmd_setidx`. -/
def cmdSetidx (call : Call) (store : Store) : Store × RespReply :=
  if call.argc ≠ 3 then parseError store
  else
    let result := kvsHashAppend call.flags.enableTtl (call.world.now 0)
      (store.tables.hashes .hash4) (call.arg 1) 0 (call.arg 2)
    (store.setHash .hash4 result.1, statusReply result.2 .ok .error)

/-- `cmd_getidx`. -/
def cmdGetidx (call : Call) : Store → Store × RespReply :=
  reading (decide (call.argc ≠ 2)) (.hash .hash4) call

/-- The loop of `build_records_newline`: the table behind its lazy deletions
and the records found; the clock is read once for every id. -/
def buildRecords (enableTtl : Bool) (now : Nat → Int) :
    List Bytes → Nat → KvsHash → KvsHash × List Bytes
  | [], _, hash => (hash, [])
  | id :: ids, tick, hash =>
      let result := kvsHashGet enableTtl (now tick) hash (cString id) 0
      let record := result.2.getD []
      let rest := buildRecords enableTtl now ids (tick + 1) result.1
      (rest.1, if record.length = 0 then rest.2 else record :: rest.2)

/-- `build_records_newline`; `tick` counts the clock readings so far. -/
def buildRecordsNewline (call : Call) (ids : List Bytes) (tick : Nat)
    (store : Store) : Store × RespReply :=
  let result := buildRecords call.flags.enableTtl call.world.now ids tick
    (store.tables.hashes .hash3)
  (store.setHash .hash3 result.1,
    if result.2.length = 0 then RespReply.plain .noExists
    else RespReply.bulk (result.2.intersperse (ascii "\n")).flatten)

/-- The ids that `cmd_getidxrec` cuts out of a list. -/
def listedIds (list : Bytes) : List Bytes :=
  (splitComma list).filter (fun id => decide (0 < id.length))

/-- The largest array of ids: `cap` is an `int`, doubled once more it is
negative, and an array of a negative number of pointers is not allocated. -/
def maxListedIds : Nat :=
  2 ^ 30

/-- `cmd_getidxrec`. -/
def cmdGetidxrec (call : Call) (store : Store) : Store × RespReply :=
  if call.argc ≠ 2 then parseError store
  else
    let result := store.operate call (.hash .hash4)
      (.get (call.world.now 0) (call.arg 1))
    let list := (foundOf result.2).getD []
    if list.length = 0 then (result.1, RespReply.plain .noExists)
    else if maxListedIds < (listedIds list).length then
      (result.1, RespReply.plain .error)
    else buildRecordsNewline call (listedIds list) 1 result.1

/-! ## The time index -/

/-- `cmd_zadd`. -/
def cmdZadd (call : Call) (store : Store) : Store × RespReply :=
  if call.argc ≠ 3 then parseError store
  else
    let ts := call.number 1
    if ts ≤ 0 then parseError store
    else
      let result :=
        kvsZsetAdd store.tables.skip ts (call.arg 2) call.world.level
      ({ store with tables := { store.tables with skip := result.1 } },
        statusReply result.2 .ok .error)

/-- The numbers `start` and `stop` of the range commands: `none` for a request
they refuse, otherwise `n`. -/
def rangeCount (call : Call) : Option Int :=
  let start := call.number 1
  let stop := call.number 2
  if start ≠ 0 ∨ stop < 0 then none
  else some (toInt32 (toInt64 (stop - start + 1)))

/-- What the range commands share: they answer to the ids that
`kvs_zset_recent` returns. -/
def ranging (answer : List Bytes → Store × RespReply) (call : Call)
    (store : Store) : Store × RespReply :=
  if call.argc ≠ 3 then parseError store
  else
    match rangeCount call with
    | none => parseError store
    | some n =>
        if n ≤ 0 then (store, RespReply.plain .noExists)
        else
          match kvsZsetRecent store.tables.skip n with
          | none => (store, RespReply.plain .error)
          | some ids =>
              if ids.length = 0 then (store, RespReply.plain .noExists)
              else answer ids

/-- A range command refuses, finds nothing or answers to some ids. -/
theorem ranging_cases (answer : List Bytes → Store × RespReply) (call : Call)
    (store : Store) :
    (∃ status, ranging answer call store = (store, RespReply.plain status)) ∨
      ∃ ids, ranging answer call store = answer ids := by
  rw [ranging]
  split_ifs
  · exact Or.inl ⟨_, rfl⟩
  · split
    · exact Or.inl ⟨_, rfl⟩
    · split_ifs
      · exact Or.inl ⟨_, rfl⟩
      · split
        · exact Or.inl ⟨_, rfl⟩
        · split_ifs
          · exact Or.inl ⟨_, rfl⟩
          · exact Or.inr ⟨_, rfl⟩

/-- What holds of the store and of every answer holds behind a range
command. -/
theorem ranging_store {property : Store → Prop}
    {answer : List Bytes → Store × RespReply} {call : Call} {store : Store}
    (kept : property store) (answers : ∀ ids, property (answer ids).1) :
    property (ranging answer call store).1 := by
  rcases ranging_cases answer call store with ⟨status, same⟩ | ⟨ids, same⟩
  · rw [same]
    exact kept
  · rw [same]
    exact answers ids

/-- Two states with the same recent ids answer a range command alike when they
answer to any ids alike. -/
theorem ranging_alike {related : Store → Store → Prop}
    {answer answer' : List Bytes → Store × RespReply} {call : Call}
    {store store' : Store}
    (recent : ∀ n, kvsZsetRecent store.tables.skip n =
      kvsZsetRecent store'.tables.skip n)
    (kept : related store store')
    (answers : ∀ ids, related (answer ids).1 (answer' ids).1 ∧
      (answer ids).2 = (answer' ids).2) :
    related (ranging answer call store).1 (ranging answer' call store').1 ∧
      (ranging answer call store).2 = (ranging answer' call store').2 := by
  rw [ranging, ranging]
  split_ifs
  · exact ⟨kept, rfl⟩
  · cases rangeCount call with
    | none => exact ⟨kept, rfl⟩
    | some n =>
        dsimp only
        rw [recent n]
        split_ifs
        · exact ⟨kept, rfl⟩
        · cases kvsZsetRecent store'.tables.skip n with
          | none => exact ⟨kept, rfl⟩
          | some ids =>
              dsimp only
              split_ifs
              · exact ⟨kept, rfl⟩
              · exact answers ids

/-- `cmd_zrange`. -/
def cmdZrange (call : Call) (store : Store) : Store × RespReply :=
  ranging
    (fun ids =>
      (store,
        RespReply.bulk ((ids.map cString).intersperse (ascii ",")).flatten))
    call store

/-- `cmd_zrangerec`. -/
def cmdZrangerec (call : Call) (store : Store) : Store × RespReply :=
  ranging (fun ids => buildRecordsNewline call ids 0 store) call store

end Kivo.Server.Commands
