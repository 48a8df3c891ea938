import Kivo.Server.Handlers

/-!
# The replies of the handlers

`resp_pack` writes nothing for a reply with the status `KVS_RESP_ERROR`, and
nothing for a body with a null pointer.  This module lists the commands,
arguments and store states that lead to such a reply.  All other replies are a
bare status or a body, and the write buffer takes them as long as an `int` can
count its bytes.
-/

namespace Kivo.Server.Replies

open Kivo.Clib.Memory
open Kivo.Clib.Numeral
open Kivo.Engine.KeyMap
open Kivo.Engine.ArrayEngine
open Kivo.Engine.HashEngine
open Kivo.Engine.HashTable (HashOk slotLimit nodes)
open Kivo.Engine.SkipEngine
open Kivo.Engine.Store
open Kivo.Resp.Frame
open Kivo.Resp.Canonical
open Kivo.Resp.Reply
open Kivo.Resp.Stream
open Kivo.Server.State
open Kivo.Server.Expire
open Kivo.Server.Commands
open Kivo.Server.CommandTable
open Kivo.Server.Requests
open Kivo.Server.Handlers

/-! ## Commands without an answer -/

/-- A hash table of the largest size, which takes no further entry. -/
def Full (store : Store) (name : HashName) : Prop :=
  slotLimit ≤ (nodes (store.tables.hashes name)).length

/-- `MATCH` has entries to compare with, but no vector for the question, or no
answer under the key of the best entry. -/
def Unanswered (flags : Flags) (world : World) (store : Store) : Prop :=
  store.vectorIndex ≠ [] ∧
    (world.vector = false ∨
      ∃ key, world.best.bind (fun position => store.vectorIndex[position]?) =
          some key ∧
        (kvsHashGet flags.enableTtl (world.now 0)
          (store.tables.hashes .hash1) key 0).2.getD [] = [])

/-- `SETIDX` has nothing to add, or no room to add it. -/
def Unlisted (flags : Flags) (world : World) (store : Store)
    (key id : Bytes) : Prop :=
  let read := kvsHashGet flags.enableTtl (world.now 0)
    (store.tables.hashes .hash4) key 0
  id = [] ∨
    slotLimit ≤ (nodes read.1).length ∧ id ∉ splitComma (read.2.getD [])

/-- A range command asks for ids, and the nodes of the skip list are so many that
an `int` counts them as a negative number. -/
def Uncounted (call : Call) (store : Store) : Prop :=
  call.argc = 3 ∧ (∃ n, rangeCount call = some n ∧ 0 < n) ∧
    toInt32 store.tables.skip.entries.length < 0

/-- `GETIDXREC` finds more ids than its array takes. -/
def Overlisted (call : Call) (store : Store) : Prop :=
  call.argc = 2 ∧
    maxListedIds < (listedIds ((foundOf (store.operate call (.hash .hash4)
      (.get (call.world.now 0) (call.arg 1))).2).getD [])).length

/-- The commands that leave the client without a reply, by their arguments and
the store they meet. -/
def Mute (call : Call) (store : Store) (args : List Bytes) : Proc → Prop
  | .arraySet =>
      3 ≤ args.length ∧
        findKeyIndex store.tables.array (args.getD 1 []) = none ∧
        kvsArraySize ≤ store.tables.array.items.length
  | .hashSet => 3 ≤ args.length ∧ Full store .hash
  | .keep =>
      3 ≤ args.length ∧
        (Full store .hash1 ∨ call.world.vector = false ∨
          maxVectorIndex ≤ store.vectorIndex.length)
  | .match_ => args.length = 2 ∧ Unanswered call.flags call.world store
  | .setctx => 4 ≤ args.length ∧ Full store .hash2
  | .setrec => args.length = 3 ∧ Full store .hash3
  | .setidx =>
      args.length = 3 ∧
        Unlisted call.flags call.world store (args.getD 1 []) (args.getD 2 [])
  | .getidxrec => Overlisted call store
  | .zadd =>
      args.length = 3 ∧ 0 < strtoll (args.getD 1 []) ∧
        (args.getD 2 [] = [] ∨
          128 ≤ (zsetStamp (strtoll (args.getD 1 []))).length +
            (args.getD 2 []).length)
  | .zrange => Uncounted call store
  | .zrangerec => Uncounted call store
  | .sysSync => True
  | .sysSyncDone => True
  | _ => False

/-! ## Replies of the handlers -/

theorem silent_plain {status : KvsStatus} :
    (RespReply.plain status).Silent ↔ status = .error ∨ status = .getOk := by
  rw [RespReply.Silent, RespReply.plain]
  simp

theorem not_silent_body (body : Bytes) :
    ¬ (RespReply.bulk body).Silent := by
  simp [RespReply.Silent, RespReply.bulk]

theorem not_silent_kvsSetReplyBody (result : Option Bytes) :
    ¬ (kvsSetReplyBody result).Silent := by
  cases result with
  | none => simp [kvsSetReplyBody, silent_plain]
  | some value =>
      rw [kvsSetReplyBody]
      split_ifs
      · exact not_silent_body _
      · simp [silent_plain]

theorem not_silent_parseError (store : Store) :
    ¬ (parseError store).2.Silent := by
  simp [parseError, silent_plain]

theorem minusOne_ne_zero : (-1 : Int) ≠ 0 := by
  decide

/-- The replies of the handlers that store something. -/
theorem silent_stored {ret : Int} :
    (statusReply ret .ok .error).Silent ↔ ret ≠ 0 := by
  rw [statusReply, silent_plain]
  split_ifs with stored
  · simp [stored]
  · simp [stored]

section Handlers

variable {call : Call} {store : Store}

theorem not_silent_reading (misused : Bool) (table : Table) :
    ¬ (reading misused table call store).2.Silent := by
  rw [reading]
  split_ifs
  · exact not_silent_parseError store
  · exact not_silent_kvsSetReplyBody _

theorem not_silent_deleting (misused : Bool) (table : Table) :
    ¬ (deleting misused table call store).2.Silent := by
  rw [deleting]
  split_ifs
  · exact not_silent_parseError store
  · dsimp only
    rw [statusReply, silent_plain]
    split_ifs <;> simp

theorem not_silent_modifying (table : Table) :
    ¬ (modifying table call store).2.Silent := by
  rw [modifying]
  split_ifs
  · exact not_silent_parseError store
  · dsimp only
    rw [statusReply, silent_plain]
    split_ifs <;> simp

theorem not_silent_testing (table : Table) :
    ¬ (testing table call store).2.Silent := by
  rw [testing]
  split_ifs
  · exact not_silent_parseError store
  · dsimp only
    rw [statusReply, silent_plain]
    split_ifs <;> simp

theorem silent_timedSetting (type : ExpireType) :
    (timedSetting type call store).2.Silent ↔
      3 ≤ call.argc ∧
        codeOf (store.operate call type.table
          (.set (call.arg 1) (call.arg 2) (expireOf call))).2 ≠ 0 := by
  rw [timedSetting]
  split_ifs with few
  · exact iff_of_false (not_silent_parseError store)
      (fun both => Int.not_le.mpr few both.1)
  · dsimp only
    rw [silent_stored]
    exact (and_iff_right (Int.not_lt.mp few)).symm

/-- `kvs_array_set` fails for a new key in a full table. -/
theorem kvsArraySet_refused (inst : KvsArray) (key value : Bytes)
    (expireTime : Int) :
    (kvsArraySet inst key value expireTime).2 ≠ 0 ↔
      findKeyIndex inst key = none ∧ kvsArraySize ≤ inst.items.length := by
  rw [kvsArraySet]
  cases findKeyIndex inst key with
  | some index => simp
  | none =>
      dsimp only
      split_ifs with full
      · simp [full]
      · simp [full]

/-- `kvs_hash_set` fails in a table of the largest size. -/
theorem kvsHashSet_refused {hash : KvsHash} (ok : HashOk hash)
    (key value : Bytes) (expireTime : Int) :
    (kvsHashSet hash key 0 value expireTime).2 ≠ 0 ↔
      slotLimit ≤ (nodes hash).length := by
  rcases Nat.lt_or_ge (nodes hash).length slotLimit with room | full
  · rw [(Kivo.Engine.HashTable.kvsHashSet_contents ok room (Or.inl rfl) value
      expireTime).2.2]
    exact iff_of_false (fun other => other rfl) (Nat.not_le_of_lt room)
  · rw [Kivo.Engine.HashTable.kvsHashSet_full ok
      (Nat.le_antisymm (ok.load.trans ok.most) full)]
    exact iff_of_true minusOne_ne_zero full

theorem hashSet_refused (valid : Valid store.tables) (name : HashName)
    (key value : Bytes) (expireTime : Int) :
    codeOf (store.operate call (.hash name)
        (.set key value expireTime)).2 ≠ 0 ↔
      Full store name :=
  kvsHashSet_refused (valid.hashes name) key value expireTime

theorem silent_cmdArraySet :
    (cmdArraySet call store).2.Silent ↔
      3 ≤ call.argc ∧
        findKeyIndex store.tables.array (call.arg 1) = none ∧
        kvsArraySize ≤ store.tables.array.items.length := by
  rw [cmdArraySet]
  split_ifs with few
  · exact iff_of_false (not_silent_parseError store)
      (fun all => Int.not_le.mpr few all.1)
  · dsimp only
    rw [silent_stored, and_iff_right (Int.not_lt.mp few)]
    exact kvsArraySet_refused _ _ _ _

theorem silent_cmdKeep (valid : Valid store.tables) :
    (cmdKeep call store).2.Silent ↔
      3 ≤ call.argc ∧
        (Full store .hash1 ∨ call.world.vector = false ∨
          maxVectorIndex ≤ store.vectorIndex.length) := by
  have refused := @hashSet_refused call store valid .hash1 (call.arg 1)
    (call.arg 2) 0
  rw [cmdKeep]
  split_ifs with few
  · exact iff_of_false (not_silent_parseError store)
      (fun both => Int.not_le.mpr few both.1)
  · rw [and_iff_right (Int.not_lt.mp few)]
    dsimp only
    split_ifs with failed
    · exact iff_of_true (silent_plain.mpr (Or.inl rfl))
        (Or.inl (refused.mp failed))
    · have room : ¬ Full store .hash1 := fun full => failed (refused.mpr full)
      rw [or_iff_right room, keepBuildIndex]
      cases vector : call.world.vector with
      | false =>
          exact iff_of_true (silent_plain.mpr (Or.inl rfl)) (Or.inl rfl)
      | true =>
          rw [if_neg (not_not.mpr rfl)]
          split_ifs with many
          · exact iff_of_true (silent_plain.mpr (Or.inl rfl)) (Or.inr many)
          · simp [silent_plain, many]

theorem silent_cmdMatch :
    (cmdMatch call store).2.Silent ↔
      call.argc = 2 ∧ Unanswered call.flags call.world store := by
  rw [cmdMatch]
  split_ifs with count
  · exact iff_of_false (not_silent_parseError store)
      (fun both => count both.1)
  · rw [and_iff_right (not_not.mp count), Unanswered, matchFindBestKey]
    by_cases empty : store.vectorIndex = []
    · rw [if_pos (by rw [empty]; rfl)]
      exact iff_of_false (by simp [silent_plain]) (fun both => both.1 empty)
    · have some : ¬ store.vectorIndex.length = 0 :=
        fun zero => empty (List.eq_nil_of_length_eq_zero zero)
      rw [if_neg some, and_iff_right empty]
      cases vector : call.world.vector with
      | false =>
          exact iff_of_true (silent_plain.mpr (Or.inl rfl)) (Or.inl rfl)
      | true =>
          rw [if_neg (not_not.mpr rfl),
            or_iff_right (fun wrong => Bool.noConfusion wrong)]
          cases best : call.world.best.bind
              (fun position => store.vectorIndex[position]?) with
          | none => simp [silent_plain]
          | some key =>
              simp only [Option.some.injEq, exists_eq_left']
              split_ifs with missing
              · exact iff_of_true (silent_plain.mpr (Or.inl rfl))
                  (List.eq_nil_of_length_eq_zero missing)
              · refine iff_of_false (not_silent_body _) ?_
                intro nothing
                apply missing
                exact congrArg List.length nothing

theorem silent_cmdSetctx (valid : Valid store.tables) :
    (cmdSetctx call store).2.Silent ↔
      4 ≤ call.argc ∧ Full store .hash2 := by
  rw [cmdSetctx]
  split_ifs with few
  · exact iff_of_false (not_silent_parseError store)
      (fun both => Int.not_le.mpr few both.1)
  · rw [and_iff_right (Int.not_lt.mp few), ← @hashSet_refused call store
      valid .hash2 (call.arg 1) (call.arg 2) (contextExpire call)]
    dsimp only
    split_ifs with failed
    · exact iff_of_true (silent_plain.mpr (Or.inl rfl)) failed
    · exact iff_of_false (by simp [silent_plain]) failed
    · exact iff_of_false (by simp [silent_plain]) failed

theorem silent_cmdSetrec (valid : Valid store.tables) :
    (cmdSetrec call store).2.Silent ↔
      call.argc = 3 ∧ Full store .hash3 := by
  rw [cmdSetrec]
  split_ifs with count
  · exact iff_of_false (not_silent_parseError store)
      (fun both => count both.1)
  · rw [and_iff_right (not_not.mp count), ← @hashSet_refused call store
      valid .hash3 (call.arg 1) (call.arg 2) 0]
    exact silent_stored

theorem silent_cmdSetidx (valid : Valid store.tables) :
    (cmdSetidx call store).2.Silent ↔
      call.argc = 3 ∧
        Unlisted call.flags call.world store (call.arg 1) (call.arg 2) := by
  rw [cmdSetidx]
  split_ifs with count
  · exact iff_of_false (not_silent_parseError store)
      (fun both => count both.1)
  · rw [and_iff_right (not_not.mp count)]
    dsimp only
    rw [silent_stored, kvsHashAppend, Unlisted]
    have read := hashOk_get (valid.hashes .hash4) call.flags.enableTtl
      (call.world.now 0) (call.arg 1)
    dsimp only
    split_ifs with blank fresh listed
    · exact iff_of_true minusOne_ne_zero
        (Or.inl (List.eq_nil_of_length_eq_zero blank))
    · have proper : call.arg 2 ≠ [] :=
        fun nothing => blank (by rw [nothing]; rfl)
      rw [or_iff_right proper, kvsHashSet_refused read,
        List.eq_nil_of_length_eq_zero fresh]
      simp [splitComma, proper]
    · have proper : call.arg 2 ≠ [] :=
        fun nothing => blank (by rw [nothing]; rfl)
      simp [proper, listed]
    · have proper : call.arg 2 ≠ [] :=
        fun nothing => blank (by rw [nothing]; rfl)
      rw [or_iff_right proper, kvsHashSet_refused read,
        and_iff_left listed]

theorem not_silent_buildRecordsNewline (ids : List Bytes) (tick : Nat) :
    ¬ (buildRecordsNewline call ids tick store).2.Silent := by
  rw [buildRecordsNewline]
  dsimp only
  split_ifs
  · simp [silent_plain]
  · exact not_silent_body _

theorem silent_cmdGetidxrec :
    (cmdGetidxrec call store).2.Silent ↔ Overlisted call store := by
  rw [cmdGetidxrec, Overlisted]
  split_ifs with count
  · exact iff_of_false (not_silent_parseError store)
      (fun both => count both.1)
  · rw [and_iff_right (not_not.mp count)]
    dsimp only
    split_ifs with empty many
    · rw [List.eq_nil_of_length_eq_zero empty]
      exact iff_of_false (by simp [silent_plain]) (by decide)
    · exact iff_of_true (silent_plain.mpr (Or.inl rfl)) many
    · exact iff_of_false (not_silent_buildRecordsNewline _ _) many

theorem silent_cmdZadd (valid : Valid store.tables) :
    (cmdZadd call store).2.Silent ↔
      call.argc = 3 ∧ 0 < call.number 1 ∧
        (call.arg 2 = [] ∨
          128 ≤ (zsetStamp (call.number 1)).length +
            (call.arg 2).length) := by
  rw [cmdZadd]
  split_ifs with count
  · exact iff_of_false (not_silent_parseError store)
      (fun both => count both.1)
  · rw [and_iff_right (not_not.mp count)]
    dsimp only
    split_ifs with early
    · exact iff_of_false (not_silent_parseError store)
        (fun both => Int.not_lt.mpr early both.1)
    · rw [and_iff_right (Int.not_le.mp early)]
      dsimp only
      rw [silent_stored, kvsZsetAdd, zsetMakeKey]
      split_ifs with blank long
      · exact iff_of_true minusOne_ne_zero
          (Or.inl (List.eq_nil_of_length_eq_zero blank))
      · exact iff_of_true minusOne_ne_zero (Or.inr long)
      · have proper : call.arg 2 ≠ [] :=
          fun nothing => blank (by rw [nothing]; rfl)
        have stored := (Kivo.Engine.SkipOrder.kvsSkipSet_put valid.skip
          (zsetStamp (call.number 1) ++ call.arg 2) [] 0
          (Nat.le_of_lt_succ call.world.level.isLt)).2.2
        dsimp only
        rw [stored]
        simp [proper, long]

/-- A range command is silent where the ids cannot be counted. -/
theorem silent_ranging {answer : List Bytes → Store × RespReply}
    (answers : ∀ ids, ¬ (answer ids).2.Silent) :
    (ranging answer call store).2.Silent ↔ Uncounted call store := by
  rw [ranging, Uncounted]
  split_ifs with count
  · exact iff_of_false (not_silent_parseError store)
      (fun all => count all.1)
  · rw [and_iff_right (not_not.mp count)]
    cases rangeCount call with
    | none =>
        refine iff_of_false (not_silent_parseError store) ?_
        rintro ⟨⟨n, none, -⟩, -⟩
        cases none
    | some n =>
        simp only [Option.some.injEq, exists_eq_left']
        split_ifs with few
        · exact iff_of_false (by simp [silent_plain])
            (fun both => Int.not_le.mpr both.1 few)
        · have failed := @kvsZsetRecent_eq_none_iff store.tables.skip n
            (Int.not_le.mp few)
          rw [and_iff_right (Int.not_le.mp few), ← failed]
          cases kvsZsetRecent store.tables.skip n with
          | none => exact iff_of_true (silent_plain.mpr (Or.inl rfl)) rfl
          | some ids =>
              refine iff_of_false ?_ (Option.some_ne_none ids)
              dsimp only
              split_ifs
              · simp [silent_plain]
              · exact answers ids

theorem not_silent_cmdSysSave : ¬ (cmdSysSave call store).2.Silent := by
  rw [cmdSysSave]
  split_ifs
  · exact not_silent_parseError store
  · simp [silent_plain]
  · simp [silent_plain]
  · simp [silent_plain]

theorem not_silent_cmdSysMemtrim : ¬ (cmdSysMemtrim call store).2.Silent := by
  rw [cmdSysMemtrim]
  split_ifs
  · exact not_silent_parseError store
  · simp [silent_plain]

/-- The replies without an encoding, command by command. -/
theorem Proc.run_silent_iff {args : List Bytes}
    (arrived : Arrived call.mem call.req args) {globals : Globals Store}
    (valid : Valid globals.store.tables) (proc : Proc) :
    (proc.run call globals).2.Silent ↔
      Mute call globals.store args proc := by
  have count : ∀ number : Nat,
      ((number : Int) ≤ call.argc ↔ number ≤ args.length) ∧
        (call.argc = number ↔ args.length = number) := by
    intro number
    rw [Call.argc, arrived.argc]
    exact ⟨Int.ofNat_le, Int.natCast_inj⟩
  have arg : ∀ index, call.arg index = args.getD index [] :=
    arrived.slice_eq
  cases proc with
  | arraySet =>
      rw [Mute, ← arg, ← (count 3).1]
      exact silent_cmdArraySet
  | hashSet =>
      rw [Mute, ← (count 3).1, ← hashSet_refused valid]
      exact silent_timedSetting .hash
  | rbtreeSet =>
      have stored := (Kivo.Engine.RbtreeOrder.kvsRbtreeSet_put valid.rbtree
        (call.arg 1) (call.arg 2) (expireOf call)).2.2
      exact iff_of_false
        (fun silent => ((silent_timedSetting .rbtree).mp silent).2 stored) id
  | skipSet =>
      have stored := (Kivo.Engine.SkipOrder.kvsSkipSet_put valid.skip
        (call.arg 1) (call.arg 2) (expireOf call)
        (Nat.le_of_lt_succ call.world.level.isLt)).2.2
      exact iff_of_false
        (fun silent => ((silent_timedSetting .skiplist).mp silent).2 stored)
        id
  | keep =>
      rw [Mute, ← (count 3).1]
      exact silent_cmdKeep valid
  | match_ =>
      rw [Mute, ← (count 2).2]
      exact silent_cmdMatch
  | setctx =>
      rw [Mute, ← (count 4).1]
      exact silent_cmdSetctx valid
  | setrec =>
      rw [Mute, ← (count 3).2]
      exact silent_cmdSetrec valid
  | setidx =>
      rw [Mute, ← arg, ← arg, ← (count 3).2]
      exact silent_cmdSetidx valid
  | zadd =>
      rw [Mute, ← arg 2, ← (count 3).2]
      refine (silent_cmdZadd valid).trans (and_congr_right ?_)
      intro three
      have inner : 1 + 1 < args.length := by
        rw [((count 3).2).mp three]
        decide
      rw [Call.number, arrived.number_inner inner]
  | sysSync => exact iff_of_true (silent_plain.mpr (Or.inl rfl)) trivial
  | sysSyncDone => exact iff_of_true (silent_plain.mpr (Or.inl rfl)) trivial
  | arrayGet => exact iff_of_false (not_silent_reading _ _) id
  | arrayDel => exact iff_of_false (not_silent_deleting _ _) id
  | arrayMod => exact iff_of_false (not_silent_modifying _) id
  | arrayExists => exact iff_of_false (not_silent_testing _) id
  | rbtreeGet => exact iff_of_false (not_silent_reading _ _) id
  | rbtreeDel => exact iff_of_false (not_silent_deleting _ _) id
  | rbtreeMod => exact iff_of_false (not_silent_modifying _) id
  | rbtreeExists => exact iff_of_false (not_silent_testing _) id
  | hashGet => exact iff_of_false (not_silent_reading _ _) id
  | hashDel => exact iff_of_false (not_silent_deleting _ _) id
  | hashMod => exact iff_of_false (not_silent_modifying _) id
  | hashExists => exact iff_of_false (not_silent_testing _) id
  | getctx => exact iff_of_false (not_silent_reading _ _) id
  | delctx => exact iff_of_false (not_silent_deleting _ _) id
  | getrec => exact iff_of_false (not_silent_reading _ _) id
  | getidxrec => exact silent_cmdGetidxrec
  | getidx => exact iff_of_false (not_silent_reading _ _) id
  | skipGet => exact iff_of_false (not_silent_reading _ _) id
  | skipDel => exact iff_of_false (not_silent_deleting _ _) id
  | skipMod => exact iff_of_false (not_silent_modifying _) id
  | skipExists => exact iff_of_false (not_silent_testing _) id
  | zrange => exact silent_ranging (fun _ => not_silent_body _)
  | zrangerec =>
      exact silent_ranging (fun _ => not_silent_buildRecordsNewline _ _)
  | sysSave => exact iff_of_false not_silent_cmdSysSave id
  | sysMemtrim => exact iff_of_false not_silent_cmdSysMemtrim id

end Handlers

/-! ## Bodies -/

/-- A body comes with the status of a body, and `body_len` is its length,
narrowed to an `int`. -/
structure Regular (reply : RespReply) : Prop where
  status : reply.body = none ∨ reply.status = .getOk
  bodyLen : reply.bodyLen = toInt32 (reply.body.getD []).length

theorem regular_plain (status : KvsStatus) :
    Regular (RespReply.plain status) := by
  refine ⟨Or.inl rfl, ?_⟩
  change (0 : Int) = toInt32 0
  decide

theorem regular_body (body : Bytes) : Regular (RespReply.bulk body) :=
  ⟨Or.inr rfl, by rw [RespReply.bulk, Option.getD_some]⟩

theorem regular_kvsSetReplyBody (result : Option Bytes) :
    Regular (kvsSetReplyBody result) := by
  cases result with
  | none => exact regular_plain _
  | some value =>
      rw [kvsSetReplyBody]
      split_ifs
      · exact regular_body value
      · exact regular_plain _

section Regular

variable {call : Call} {store : Store}

theorem regular_reading (misused : Bool) (table : Table) :
    Regular (reading misused table call store).2 := by
  rw [reading]
  split_ifs
  · exact regular_plain _
  · exact regular_kvsSetReplyBody _

theorem regular_deleting (misused : Bool) (table : Table) :
    Regular (deleting misused table call store).2 := by
  rw [deleting]
  split_ifs <;> exact regular_plain _

theorem regular_modifying (table : Table) :
    Regular (modifying table call store).2 := by
  rw [modifying]
  split_ifs <;> exact regular_plain _

theorem regular_testing (table : Table) :
    Regular (testing table call store).2 := by
  rw [testing]
  split_ifs <;> exact regular_plain _

theorem regular_timedSetting (type : ExpireType) :
    Regular (timedSetting type call store).2 := by
  rw [timedSetting]
  split_ifs <;> exact regular_plain _

theorem regular_cmdArraySet : Regular (cmdArraySet call store).2 := by
  rw [cmdArraySet]
  split_ifs <;> exact regular_plain _

theorem regular_cmdKeep : Regular (cmdKeep call store).2 := by
  rw [cmdKeep]
  split_ifs
  · exact regular_plain _
  · dsimp only
    split_ifs
    · exact regular_plain _
    · split <;> exact regular_plain _

theorem regular_cmdMatch : Regular (cmdMatch call store).2 := by
  rw [cmdMatch]
  split_ifs
  · exact regular_plain _
  · split
    · exact regular_plain _
    · exact regular_plain _
    · dsimp only
      split_ifs
      · exact regular_plain _
      · exact regular_body _

theorem regular_cmdSetctx : Regular (cmdSetctx call store).2 := by
  rw [cmdSetctx]
  split_ifs
  · exact regular_plain _
  · dsimp only
    split_ifs <;> exact regular_plain _

theorem regular_buildRecordsNewline (ids : List Bytes) (tick : Nat) :
    Regular (buildRecordsNewline call ids tick store).2 := by
  rw [buildRecordsNewline]
  dsimp only
  split_ifs
  · exact regular_plain _
  · exact regular_body _

theorem regular_cmdGetidxrec : Regular (cmdGetidxrec call store).2 := by
  rw [cmdGetidxrec]
  split_ifs
  · exact regular_plain _
  · dsimp only
    split_ifs
    · exact regular_plain _
    · exact regular_plain _
    · exact regular_buildRecordsNewline _ _

theorem regular_cmdZrange : Regular (cmdZrange call store).2 := by
  rw [cmdZrange]
  rcases ranging_cases _ call store with ⟨status, same⟩ | ⟨ids, same⟩
  · rw [same]
    exact regular_plain status
  · rw [same]
    exact regular_body _

theorem regular_cmdZrangerec : Regular (cmdZrangerec call store).2 := by
  rw [cmdZrangerec]
  rcases ranging_cases _ call store with ⟨status, same⟩ | ⟨ids, same⟩
  · rw [same]
    exact regular_plain status
  · rw [same]
    exact regular_buildRecordsNewline _ _

theorem regular_cmdSetrec : Regular (cmdSetrec call store).2 := by
  rw [cmdSetrec]
  split_ifs <;> exact regular_plain _

theorem regular_cmdSetidx : Regular (cmdSetidx call store).2 := by
  rw [cmdSetidx]
  split_ifs <;> exact regular_plain _

theorem regular_cmdZadd : Regular (cmdZadd call store).2 := by
  rw [cmdZadd]
  split_ifs
  · exact regular_plain _
  · dsimp only
    split_ifs <;> exact regular_plain _

theorem regular_cmdSysSave : Regular (cmdSysSave call store).2 := by
  rw [cmdSysSave]
  split_ifs <;> exact regular_plain _

theorem regular_cmdSysMemtrim : Regular (cmdSysMemtrim call store).2 := by
  rw [cmdSysMemtrim]
  split_ifs <;> exact regular_plain _

end Regular

theorem Proc.run_regular (proc : Proc) (call : Call)
    (globals : Globals Store) :
    Regular (proc.run call globals).2 := by
  cases proc with
  | arraySet => exact regular_cmdArraySet
  | arrayGet => exact regular_reading _ _
  | arrayDel => exact regular_deleting _ _
  | arrayMod => exact regular_modifying _
  | arrayExists => exact regular_testing _
  | rbtreeSet => exact regular_timedSetting _
  | rbtreeGet => exact regular_reading _ _
  | rbtreeDel => exact regular_deleting _ _
  | rbtreeMod => exact regular_modifying _
  | rbtreeExists => exact regular_testing _
  | hashSet => exact regular_timedSetting _
  | hashGet => exact regular_reading _ _
  | hashDel => exact regular_deleting _ _
  | hashMod => exact regular_modifying _
  | hashExists => exact regular_testing _
  | keep => exact regular_cmdKeep
  | match_ => exact regular_cmdMatch
  | setctx => exact regular_cmdSetctx
  | getctx => exact regular_reading _ _
  | delctx => exact regular_deleting _ _
  | setrec => exact regular_cmdSetrec
  | getrec => exact regular_reading _ _
  | getidxrec => exact regular_cmdGetidxrec
  | setidx => exact regular_cmdSetidx
  | getidx => exact regular_reading _ _
  | skipSet => exact regular_timedSetting _
  | skipGet => exact regular_reading _ _
  | skipDel => exact regular_deleting _ _
  | skipMod => exact regular_modifying _
  | skipExists => exact regular_testing _
  | zadd => exact regular_cmdZadd
  | zrange => exact regular_cmdZrange
  | zrangerec => exact regular_cmdZrangerec
  | sysSave => exact regular_cmdSysSave
  | sysSync => exact regular_plain _
  | sysSyncDone => exact regular_plain _
  | sysMemtrim => exact regular_cmdSysMemtrim

/-- A length that does not wrap to a negative number is not raised. -/
theorem toInt32_le {length : Nat} (nonneg : 0 ≤ toInt32 length) :
    toInt32 length ≤ length := by
  rcases toInt32_cases length with ⟨same, -⟩ | ⟨negative, -⟩
  · rw [same]
    omega
  · omega

theorem Regular.most {reply : RespReply} (regular : Regular reply)
    (nonneg : 0 ≤ reply.bodyLen) :
    reply.bodyLen ≤ (reply.body.getD []).length := by
  have length := regular.bodyLen
  rw [length] at nonneg ⊢
  exact toInt32_le nonneg

/-- A body whose length wraps to a negative number is packed whole, and has
`2 ^ 31` bytes at least. -/
theorem Regular.large_of_negative {reply : RespReply}
    (regular : Regular reply) (negative : reply.bodyLen < 0) :
    2 ^ 31 ≤ (respPack reply).length := by
  obtain ⟨status, body, bodyLen⟩ := reply
  obtain ⟨kind, length⟩ := regular
  dsimp only at kind length negative
  cases body with
  | none =>
      rw [length] at negative
      exact absurd negative (by decide)
  | some body =>
      obtain rfl : status = .getOk :=
        kind.resolve_left (Option.some_ne_none body)
      rw [Option.getD_some] at length
      have large : 2 ^ 31 ≤ body.length := by
        by_contra small
        rw [toInt32_of_range (by omega) (by omega)] at length
        omega
      simp only [respPack, List.length_append, copied, if_pos negative]
      omega

/-- What is packed contains the body. -/
theorem Regular.bodyLen_le_respPack {reply : RespReply}
    (regular : Regular reply) (nonneg : 0 ≤ reply.bodyLen) :
    reply.bodyLen ≤ (respPack reply).length := by
  have most := regular.most nonneg
  obtain ⟨status, body, bodyLen⟩ := reply
  obtain ⟨kind, -⟩ := regular
  dsimp only at kind nonneg most
  cases body with
  | none => exact most.trans (by simp)
  | some body =>
      obtain rfl : status = .getOk :=
        kind.resolve_left (Option.some_ne_none body)
      have length := copied_length nonneg most
      simp only [respPack, List.length_append]
      rw [Option.getD_some] at length
      omega

/-- The write buffer counts its bytes and has never been overrun. -/
structure Sound (wbuf : WriteBuffer) : Prop where
  counted : wbuf.wlen = wbuf.bytes.length
  inside : wbuf.overrun = false

/-- Packing a reply that an `int` can count the buffer with. -/
theorem Sound.pack {wbuf : WriteBuffer} (sound : Sound wbuf)
    {reply : RespReply} (regular : Regular reply)
    (room : (wbuf.bytes ++ respPack reply).length + 1024 < 2 ^ 31) :
    Sound (respPackWithRealloc wbuf reply) := by
  rw [List.length_append] at room
  have nonneg : 0 ≤ reply.bodyLen := by
    by_contra negative
    have large := regular.large_of_negative (Int.not_le.mp negative)
    omega
  have body := regular.bodyLen_le_respPack nonneg
  have packed := respPackExtent_le nonneg (by omega)
  have needed : toInt32 (wbuf.wlen + 1024 + max reply.bodyLen 0) =
      wbuf.wlen + 1024 + reply.bodyLen := by
    rw [max_eq_left nonneg, sound.counted]
    exact toInt32_of_range (by omega) (by omega)
  have sane : ¬ reply.Runaway := fun runaway => by
    have negative := runaway.2.2
    omega
  refine ⟨?_, ?_⟩
  · simp only [respPackWithRealloc]
    rw [sound.counted, List.length_append, toInt32_of_range]
    · push_cast
      rfl
    · omega
    · omega
  · simp only [respPackWithRealloc, needed, sound.inside, Bool.false_or,
      decide_eq_false sane, decide_eq_false_iff_not, Int.not_lt]
    generalize toInt32 (wbuf.wcap * 2) = doubled
    split_ifs with grow less
    · omega
    · omega
    · omega

end Kivo.Server.Replies
