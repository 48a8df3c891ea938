import Kivo.Server.Changes

/-!
# What the handlers read of a request

A handler sees a request through `argc` and through the entries of `argv` and
`argv_len`.  This module lists the positions that each handler looks at, in the
order of the source, and the positions whose numbers decide what it does.  Two
requests that agree on them are handled alike, whatever the buffers around
them hold.
-/

namespace Kivo.Server.Readings

open Kivo.Clib.Memory
open Kivo.Engine.KeyMap
open Kivo.Engine.Store
open Kivo.Resp.Reply
open Kivo.Resp.Stream
open Kivo.Server.State
open Kivo.Server.Expire
open Kivo.Server.Commands
open Kivo.Server.CommandTable

/-! ## Positions -/

/-- A handler that refuses a misused command reads nothing. -/
def readUnless (misused : Bool) (positions : List Nat) : List Nat :=
  if misused then [] else positions

/-- The positions that `parse_ttl` looks at. -/
def ttlReads (call : Call) : List Nat :=
  if call.argc < 4 then []
  else if 5 ≤ call.argc then [3, 4]
  else [3]

/-- The positions that the setting handlers look at. -/
def settingReads (call : Call) : List Nat :=
  readUnless (decide (call.argc < 3))
    ([1, 2] ++ if call.flags.enableTtl then ttlReads call else [])

/-- The positions of `argv` and `argv_len` that a handler looks at. -/
def Proc.reads (call : Call) : Proc → List Nat
  | .arraySet => settingReads call
  | .arrayGet => readUnless (decide (call.argc < 2)) [1]
  | .arrayDel => readUnless (decide (call.argc < 2)) [1]
  | .arrayMod => readUnless (decide (call.argc < 3)) [1, 2]
  | .arrayExists => readUnless (decide (call.argc < 2)) [1]
  | .rbtreeSet => settingReads call
  | .rbtreeGet => readUnless (decide (call.argc < 2)) [1]
  | .rbtreeDel => readUnless (decide (call.argc < 2)) [1]
  | .rbtreeMod => readUnless (decide (call.argc < 3)) [1, 2]
  | .rbtreeExists => readUnless (decide (call.argc < 2)) [1]
  | .hashSet => settingReads call
  | .hashGet => readUnless (decide (call.argc < 2)) [1]
  | .hashDel => readUnless (decide (call.argc < 2)) [1]
  | .hashMod => readUnless (decide (call.argc < 3)) [1, 2]
  | .hashExists => readUnless (decide (call.argc < 2)) [1]
  | .keep => readUnless (decide (call.argc < 3)) [1, 2]
  | .match_ => readUnless (decide (call.argc ≠ 2)) [1]
  | .setctx => readUnless (decide (call.argc < 4)) [1, 2, 3]
  | .getctx => readUnless (decide (call.argc ≠ 2)) [1]
  | .delctx => readUnless (decide (call.argc ≠ 2)) [1]
  | .setrec => readUnless (decide (call.argc ≠ 3)) [1, 2]
  | .getrec => readUnless (decide (call.argc ≠ 2)) [1]
  | .getidxrec => readUnless (decide (call.argc ≠ 2)) [1]
  | .setidx => readUnless (decide (call.argc ≠ 3)) [1, 2]
  | .getidx => readUnless (decide (call.argc ≠ 2)) [1]
  | .skipSet => settingReads call
  | .skipGet => readUnless (decide (call.argc < 2)) [1]
  | .skipDel => readUnless (decide (call.argc < 2)) [1]
  | .skipMod => readUnless (decide (call.argc < 3)) [1, 2]
  | .skipExists => readUnless (decide (call.argc < 2)) [1]
  | .zadd =>
      readUnless (decide (call.argc ≠ 3))
        (1 :: readUnless (decide (call.number 1 ≤ 0)) [2])
  | .zrange => readUnless (decide (call.argc ≠ 3)) [1, 2]
  | .zrangerec => readUnless (decide (call.argc ≠ 3)) [1, 2]
  | .sysSave => []
  | .sysSync => []
  | .sysSyncDone => []
  | .sysMemtrim => []

/-- The number that decides what `parse_ttl` returns. -/
def ttlNumbers (call : Call) : List Nat :=
  if call.argc < 4 then []
  else if 5 ≤ call.argc ∧
      (call.argIs 3 (ascii "EX") ∨ call.argIs 3 (ascii "PX")) then [4]
  else [3]

/-- The numbers that decide what a setting handler stores. -/
def settingNumbers (call : Call) : List Nat :=
  readUnless (decide (call.argc < 3))
    (if call.flags.enableTtl then ttlNumbers call else [])

/-- The numbers that decide what a range command answers: the second one does
not matter once the first one is refused. -/
def rangeNumbers (call : Call) : List Nat :=
  readUnless (decide (call.argc ≠ 3))
    (1 :: readUnless (decide (call.number 1 ≠ 0)) [2])

/-- The positions of the numbers that decide what a handler does. -/
def Proc.numbers (call : Call) : Proc → List Nat
  | .arraySet => settingNumbers call
  | .rbtreeSet => settingNumbers call
  | .hashSet => settingNumbers call
  | .skipSet => settingNumbers call
  | .setctx => readUnless (decide (call.argc < 4)) [3]
  | .zadd => readUnless (decide (call.argc ≠ 3)) [1]
  | .zrange => rangeNumbers call
  | .zrangerec => rangeNumbers call
  | _ => []

theorem mem_readUnless {misused : Bool} {positions : List Nat}
    {index : Nat} :
    index ∈ readUnless misused positions ↔
      misused = false ∧ index ∈ positions := by
  cases misused <;> simp [readUnless]

/-! ## Calls that look alike -/

/-- Two calls show a handler the same at some positions, and the same numbers
at others. -/
structure Alike (positions numbers : List Nat) (left right : Call) :
    Prop where
  flags : left.flags = right.flags
  world : left.world = right.world
  argc : left.argc = right.argc
  arg : ∀ index ∈ positions, left.arg index = right.arg index
  argIs : ∀ index ∈ positions, ∀ keyword,
    left.argIs index keyword = right.argIs index keyword
  number : ∀ index ∈ numbers, left.number index = right.number index

/-- Both calls are refused or both go on. -/
theorem guard_alike {bad other : Prop} [Decidable bad] [Decidable other]
    (agree : bad ↔ other) {store : Store} {body body' : Store × RespReply}
    (goesOn : ¬ bad → body = body') :
    (if bad then parseError store else body) =
      (if other then parseError store else body') := by
  by_cases refused : bad
  · rw [if_pos refused, if_pos (agree.mp refused)]
  · rw [if_neg refused, if_neg (mt agree.mpr refused), goesOn refused]

section Shapes

variable {positions numbers : List Nat} {left right : Call} {store : Store}
  (same : Alike positions numbers left right)

include same

theorem Alike.argc_lt (bound : Int) :
    left.argc < bound ↔ right.argc < bound := by
  rw [same.argc]

theorem Alike.argc_ne (count : Int) :
    left.argc ≠ count ↔ right.argc ≠ count := by
  rw [same.argc]

theorem Alike.operate (table : Table) (operation : Operation) :
    store.operate left table operation =
      store.operate right table operation := by
  rw [Store.operate, Store.operate, same.flags, same.world]

theorem Alike.pushTimer (type : ExpireType) (key : Bytes) (expire : Int) :
    store.pushTimer left type key expire =
      store.pushTimer right type key expire := by
  rw [Store.pushTimer, Store.pushTimer, same.world]

theorem Alike.buildRecordsNewline (ids : List Bytes) (tick : Nat) :
    buildRecordsNewline left ids tick store =
      buildRecordsNewline right ids tick store := by
  rw [Commands.buildRecordsNewline, Commands.buildRecordsNewline, same.flags,
    same.world]

end Shapes

theorem Alike.seen {misused : Bool} {positions numbers : List Nat}
    {left right : Call}
    (same : Alike (readUnless misused positions) numbers left right)
    (goesOn : misused = false) {index : Nat} (inside : index ∈ positions) :
    left.arg index = right.arg index :=
  same.arg index (mem_readUnless.mpr ⟨goesOn, inside⟩)

theorem Alike.counted {misused : Bool} {positions numbers : List Nat}
    {left right : Call}
    (same : Alike positions (readUnless misused numbers) left right)
    (goesOn : misused = false) {index : Nat} (inside : index ∈ numbers) :
    left.number index = right.number index :=
  same.number index (mem_readUnless.mpr ⟨goesOn, inside⟩)

section Handlers

variable {numbers : List Nat} {left right : Call} {store : Store}

theorem reading_alike {misused other : Bool}
    (same : Alike (readUnless misused [1]) numbers left right)
    (agree : misused = other) (table : Table) :
    reading misused table left store = reading other table right store := by
  subst agree
  rw [reading, reading]
  refine guard_alike Iff.rfl (fun goesOn => ?_)
  rw [Bool.not_eq_true] at goesOn
  rw [same.seen goesOn (by decide), same.world, same.operate]

theorem deleting_alike {misused other : Bool}
    (same : Alike (readUnless misused [1]) numbers left right)
    (agree : misused = other) (table : Table) :
    deleting misused table left store = deleting other table right store := by
  subst agree
  rw [deleting, deleting]
  refine guard_alike Iff.rfl (fun goesOn => ?_)
  rw [Bool.not_eq_true] at goesOn
  rw [same.seen goesOn (by decide), same.operate]

theorem modifying_alike
    (same : Alike (readUnless (decide (left.argc < 3)) [1, 2]) numbers
      left right) (table : Table) :
    modifying table left store = modifying table right store := by
  rw [modifying, modifying]
  refine guard_alike (same.argc_lt 3) (fun enough => ?_)
  have goesOn := decide_eq_false enough
  rw [same.seen goesOn (show 1 ∈ [1, 2] by decide),
    same.seen goesOn (show 2 ∈ [1, 2] by decide), same.operate]

theorem testing_alike
    (same : Alike (readUnless (decide (left.argc < 2)) [1]) numbers
      left right) (table : Table) :
    testing table left store = testing table right store := by
  rw [testing, testing]
  refine guard_alike (same.argc_lt 2) (fun enough => ?_)
  rw [same.seen (decide_eq_false enough) (by decide), same.world,
    same.operate]

theorem cmdKeep_alike
    (same : Alike (readUnless (decide (left.argc < 3)) [1, 2]) numbers
      left right) :
    cmdKeep left store = cmdKeep right store := by
  rw [cmdKeep, cmdKeep]
  refine guard_alike (same.argc_lt 3) (fun enough => ?_)
  have goesOn := decide_eq_false enough
  rw [same.seen goesOn (show 1 ∈ [1, 2] by decide),
    same.seen goesOn (show 2 ∈ [1, 2] by decide), same.operate,
    keepBuildIndex, keepBuildIndex, same.world]

theorem cmdMatch_alike {positions : List Nat}
    (same : Alike positions numbers left right) :
    cmdMatch left store = cmdMatch right store := by
  rw [cmdMatch, cmdMatch]
  refine guard_alike (same.argc_ne 2) (fun _ => ?_)
  rw [matchFindBestKey, matchFindBestKey, same.world]
  simp only [same.operate]

theorem cmdSetrec_alike
    (same : Alike (readUnless (decide (left.argc ≠ 3)) [1, 2]) numbers
      left right) :
    cmdSetrec left store = cmdSetrec right store := by
  rw [cmdSetrec, cmdSetrec]
  refine guard_alike (same.argc_ne 3) (fun exactly => ?_)
  have goesOn := decide_eq_false exactly
  rw [same.seen goesOn (show 1 ∈ [1, 2] by decide),
    same.seen goesOn (show 2 ∈ [1, 2] by decide), same.operate]

theorem cmdSetidx_alike
    (same : Alike (readUnless (decide (left.argc ≠ 3)) [1, 2]) numbers
      left right) :
    cmdSetidx left store = cmdSetidx right store := by
  rw [cmdSetidx, cmdSetidx]
  refine guard_alike (same.argc_ne 3) (fun exactly => ?_)
  have goesOn := decide_eq_false exactly
  rw [same.seen goesOn (show 1 ∈ [1, 2] by decide),
    same.seen goesOn (show 2 ∈ [1, 2] by decide), same.flags, same.world]

theorem cmdGetidxrec_alike
    (same : Alike (readUnless (decide (left.argc ≠ 2)) [1]) numbers
      left right) :
    cmdGetidxrec left store = cmdGetidxrec right store := by
  rw [cmdGetidxrec, cmdGetidxrec]
  refine guard_alike (same.argc_ne 2) (fun exactly => ?_)
  rw [same.seen (decide_eq_false exactly) (by decide), same.world,
    same.operate]
  simp only [same.buildRecordsNewline]

theorem cmdSysSave_alike {positions : List Nat}
    (same : Alike positions numbers left right) :
    cmdSysSave left store = cmdSysSave right store := by
  rw [cmdSysSave, cmdSysSave, same.world]
  exact guard_alike (same.argc_ne 1) (fun _ => rfl)

theorem cmdSysMemtrim_alike {positions : List Nat}
    (same : Alike positions numbers left right) :
    cmdSysMemtrim left store = cmdSysMemtrim right store := by
  rw [cmdSysMemtrim, cmdSysMemtrim]
  exact guard_alike (same.argc_ne 1) (fun _ => rfl)

end Handlers

/-! ## Handlers that read numbers -/

section Numbers

variable {positions numbers : List Nat} {left right : Call} {store : Store}

/-- The keywords of `parse_ttl` look the same. -/
theorem parseTtl_alike
    (same : Alike (ttlReads left) (ttlNumbers left) left right) :
    parseTtl left = parseTtl right := by
  rw [parseTtl, parseTtl, ← same.world, ← same.argc]
  by_cases few : left.argc < 4
  · rw [if_pos few, if_pos few]
  · rw [if_neg few, if_neg few]
    have reads : 3 ∈ ttlReads left := by
      rw [ttlReads, if_neg few]
      split_ifs <;> decide
    have number := same.number
    rw [ttlNumbers, if_neg few] at number
    rw [← same.argIs 3 reads, ← same.argIs 3 reads]
    by_cases seconds : 5 ≤ left.argc ∧ left.argIs 3 (ascii "EX") = true
    · rw [if_pos ⟨seconds.1, Or.inl seconds.2⟩] at number
      rw [if_pos seconds, if_pos seconds, number 4 (by decide)]
    · rw [if_neg seconds, if_neg seconds]
      by_cases millis : 5 ≤ left.argc ∧ left.argIs 3 (ascii "PX") = true
      · rw [if_pos ⟨millis.1, Or.inr millis.2⟩] at number
        rw [if_pos millis, if_pos millis, number 4 (by decide)]
      · rw [if_neg millis, if_neg millis]
        rw [if_neg (fun long => long.2.elim
          (fun word => seconds ⟨long.1, word⟩)
          (fun word => millis ⟨long.1, word⟩))] at number
        rw [number 3 (by decide)]

theorem expireOf_alike
    (same : Alike (settingReads left) (settingNumbers left) left right)
    (enough : ¬ left.argc < 3) :
    expireOf left = expireOf right := by
  rw [expireOf, expireOf, ← same.flags]
  by_cases timed : left.flags.enableTtl = true
  · rw [if_pos timed, if_pos timed]
    refine parseTtl_alike
      ⟨same.flags, same.world, same.argc, ?_, ?_, ?_⟩
    · intro index inside
      refine same.arg index (mem_readUnless.mpr ⟨decide_eq_false enough, ?_⟩)
      rw [if_pos timed]
      exact List.mem_append_right _ inside
    · intro index inside
      refine same.argIs index
        (mem_readUnless.mpr ⟨decide_eq_false enough, ?_⟩)
      rw [if_pos timed]
      exact List.mem_append_right _ inside
    · intro index inside
      refine same.number index
        (mem_readUnless.mpr ⟨decide_eq_false enough, ?_⟩)
      rw [if_pos timed]
      exact inside
  · rw [if_neg timed, if_neg timed]

theorem timedSetting_alike
    (same : Alike (settingReads left) (settingNumbers left) left right)
    (type : ExpireType) :
    timedSetting type left store = timedSetting type right store := by
  rw [timedSetting, timedSetting]
  refine guard_alike (same.argc_lt 3) (fun enough => ?_)
  have goesOn := decide_eq_false enough
  simp only [expireOf_alike same enough,
    same.seen goesOn (List.mem_append_left _ (show 1 ∈ [1, 2] by decide)),
    same.seen goesOn (List.mem_append_left _ (show 2 ∈ [1, 2] by decide)),
    same.operate, same.pushTimer, same.flags]

theorem cmdArraySet_alike
    (same : Alike (settingReads left) (settingNumbers left) left right) :
    cmdArraySet left store = cmdArraySet right store := by
  rw [cmdArraySet, cmdArraySet]
  refine guard_alike (same.argc_lt 3) (fun enough => ?_)
  have goesOn := decide_eq_false enough
  simp only [expireOf_alike same enough,
    same.seen goesOn (List.mem_append_left _ (show 1 ∈ [1, 2] by decide)),
    same.seen goesOn (List.mem_append_left _ (show 2 ∈ [1, 2] by decide)),
    same.operate, same.pushTimer, same.flags]

theorem cmdSetctx_alike
    (same : Alike (readUnless (decide (left.argc < 4)) [1, 2, 3])
      (readUnless (decide (left.argc < 4)) [3]) left right) :
    cmdSetctx left store = cmdSetctx right store := by
  rw [cmdSetctx, cmdSetctx]
  refine guard_alike (same.argc_lt 4) (fun enough => ?_)
  have goesOn := decide_eq_false enough
  have expire : contextExpire left = contextExpire right := by
    rw [contextExpire, contextExpire, same.world,
      same.counted goesOn (show 3 ∈ [3] by decide)]
  simp only [expire, same.seen goesOn (show 1 ∈ [1, 2, 3] by decide),
    same.seen goesOn (show 2 ∈ [1, 2, 3] by decide), same.operate,
    same.pushTimer, same.flags]

theorem cmdZadd_alike
    (same : Alike
      (readUnless (decide (left.argc ≠ 3))
        (1 :: readUnless (decide (left.number 1 ≤ 0)) [2]))
      (readUnless (decide (left.argc ≠ 3)) [1]) left right) :
    cmdZadd left store = cmdZadd right store := by
  rw [cmdZadd, cmdZadd]
  refine guard_alike (same.argc_ne 3) (fun exactly => ?_)
  have goesOn := decide_eq_false exactly
  have number := same.counted goesOn (show 1 ∈ [1] by decide)
  refine guard_alike (by rw [number]) (fun positive => ?_)
  have id : left.arg 2 = right.arg 2 :=
    same.seen goesOn (List.mem_cons_of_mem _
      (mem_readUnless.mpr ⟨decide_eq_false positive, by decide⟩))
  rw [number, id, same.world]

theorem rangeCount_alike
    (same : Alike positions (rangeNumbers left) left right)
    (exactly : ¬ left.argc ≠ 3) :
    rangeCount left = rangeCount right := by
  have goesOn := decide_eq_false exactly
  have start := same.counted goesOn (List.mem_cons_self ..)
  rw [rangeCount, rangeCount, ← start]
  by_cases zero : left.number 1 = 0
  · have stop : left.number 2 = right.number 2 :=
      same.counted goesOn (List.mem_cons_of_mem _ (mem_readUnless.mpr
        ⟨decide_eq_false (not_not.mpr zero), by decide⟩))
    rw [stop]
  · simp only [if_pos (Or.inl zero)]

theorem cmdZrange_alike
    (same : Alike positions (rangeNumbers left) left right) :
    cmdZrange left store = cmdZrange right store := by
  rw [cmdZrange, cmdZrange, ranging, ranging]
  refine guard_alike (same.argc_ne 3) (fun exactly => ?_)
  rw [rangeCount_alike same exactly]

theorem cmdZrangerec_alike
    (same : Alike positions (rangeNumbers left) left right) :
    cmdZrangerec left store = cmdZrangerec right store := by
  rw [cmdZrangerec, cmdZrangerec, ranging, ranging]
  refine guard_alike (same.argc_ne 3) (fun exactly => ?_)
  rw [rangeCount_alike same exactly]
  simp only [same.buildRecordsNewline]

end Numbers

/-- What a handler does is decided by the positions it looks at. -/
theorem Proc.run_alike {proc : Proc} {left right : Call}
    (same : Alike (Proc.reads left proc) (Proc.numbers left proc) left right)
    (globals : Globals Store) :
    proc.run left globals = proc.run right globals := by
  have few : decide (left.argc < 2) = decide (right.argc < 2) := by
    rw [same.argc]
  have other : decide (left.argc ≠ 2) = decide (right.argc ≠ 2) := by
    rw [same.argc]
  have lift : ∀ {result result' : Store × RespReply}, result = result' →
      (({ globals with store := result.1 }, result.2) :
          Globals Store × RespReply) =
        ({ globals with store := result'.1 }, result'.2) := by
    rintro result _ rfl
    rfl
  cases proc with
  | arraySet => exact lift (cmdArraySet_alike same)
  | arrayGet => exact lift (reading_alike same few _)
  | arrayDel => exact lift (deleting_alike same few _)
  | arrayMod => exact lift (modifying_alike same _)
  | arrayExists => exact lift (testing_alike same _)
  | rbtreeSet => exact lift (timedSetting_alike same _)
  | rbtreeGet => exact lift (reading_alike same few _)
  | rbtreeDel => exact lift (deleting_alike same few _)
  | rbtreeMod => exact lift (modifying_alike same _)
  | rbtreeExists => exact lift (testing_alike same _)
  | hashSet => exact lift (timedSetting_alike same _)
  | hashGet => exact lift (reading_alike same few _)
  | hashDel => exact lift (deleting_alike same few _)
  | hashMod => exact lift (modifying_alike same _)
  | hashExists => exact lift (testing_alike same _)
  | keep => exact lift (cmdKeep_alike same)
  | match_ => exact lift (cmdMatch_alike same)
  | setctx => exact lift (cmdSetctx_alike same)
  | getctx => exact lift (reading_alike same other _)
  | delctx => exact lift (deleting_alike same other _)
  | setrec => exact lift (cmdSetrec_alike same)
  | getrec => exact lift (reading_alike same other _)
  | getidxrec => exact lift (cmdGetidxrec_alike same)
  | setidx => exact lift (cmdSetidx_alike same)
  | getidx => exact lift (reading_alike same other _)
  | skipSet => exact lift (timedSetting_alike same _)
  | skipGet => exact lift (reading_alike same few _)
  | skipDel => exact lift (deleting_alike same few _)
  | skipMod => exact lift (modifying_alike same _)
  | skipExists => exact lift (testing_alike same _)
  | zadd => exact lift (cmdZadd_alike same)
  | zrange => exact lift (cmdZrange_alike same)
  | zrangerec => exact lift (cmdZrangerec_alike same)
  | sysSave => exact lift (cmdSysSave_alike same)
  | sysSync => rfl
  | sysSyncDone => rfl
  | sysMemtrim => exact lift (cmdSysMemtrim_alike same)

end Kivo.Server.Readings
