import Kivo.Server.Serving

/-!
# One skip list for two families of commands

`ZADD` and `SSET` store in the same skip list.  The time index composes its keys
from a time and an id, and reads the last keys of the list, whatever they are.
The two families do not disturb each other in the runs in which the keys that
`SSET` and `SMOD` store are too short to carry an id and sort before every
composed key, and `SDEL` names no composed key.
-/

namespace Kivo.Server.TimeIndex

open Kivo.Clib.Memory
open Kivo.Clib.Simulation
open Kivo.Clib.SortedList
open Kivo.Engine.Data
open Kivo.Engine.KeyMap
open Kivo.Engine.SkipEngine
open Kivo.Engine.SkipOrder
open Kivo.Engine.SkipRuns (Level skipStep_ordered skipStep_represents)
open Kivo.Engine.Store
open Kivo.Engine.Maps
open Kivo.Resp.Frame
open Kivo.Resp.Reply
open Kivo.Server.State
open Kivo.Server.Expire
open Kivo.Server.Commands
open Kivo.Server.CommandTable
open Kivo.Server.Handlers
open Kivo.Server.Alignment (freshSession plainFlags)
open Kivo.Server.Serving (Kind Family)

/-! ## Invocations -/

/-- A handler with what it reads: its arguments and the outside. -/
structure Invocation where
  proc : Proc
  call : Call

/-- Run a handler. -/
def invoke (globals : Globals Store) (invocation : Invocation) :
    Globals Store × RespReply :=
  invocation.proc.run invocation.call globals

/-- The handlers of the two families, and the one that stores the records. -/
def sharedProcs : List Proc :=
  [.zadd, .zrange, .zrangerec, .setrec, .skipSet, .skipMod, .skipDel, .skipGet,
    .skipExists]

/-- The key that a `ZADD` composes and stores. -/
def Invocation.composes (invocation : Invocation) : Option Bytes :=
  if invocation.proc = .zadd ∧ invocation.call.argc = 3 ∧
      0 < invocation.call.number 1 then
    zsetKey (invocation.call.number 1) (invocation.call.arg 2)
  else none

/-- The command of the other family that a handler carries out. -/
def storeKind : Proc → Option Kind
  | .skipSet => some .set
  | .skipMod => some .mod
  | .skipDel => some .del
  | .skipGet => some .get
  | .skipExists => some .exist
  | _ => none

/-- The call that a command of the other family makes on the skip list. -/
def Invocation.operation (invocation : Invocation) : Option Operation :=
  (storeKind invocation.proc).bind (Kind.operation invocation.call)

theorem Invocation.operation_ne_expire (invocation : Invocation)
    (key : Bytes) (expectedExpire : Int) :
    invocation.operation ≠ some (.delIfExpired key expectedExpire) := by
  intro makes
  obtain ⟨kind, -, operation⟩ := Option.bind_eq_some_iff.mp makes
  cases kind <;>
    · simp only [Kind.operation] at operation
      split_ifs at operation
      cases operation

/-- The handlers that work on the skip list as a store. -/
def skipProcs : List Proc :=
  [.skipSet, .skipMod, .skipDel, .skipGet, .skipExists]

theorem storeKind_handler {proc : Proc} (skip : proc ∈ skipProcs) :
    ∃ kind, storeKind proc = some kind ∧ proc = Family.skip.handler kind := by
  simp only [skipProcs, List.mem_cons, List.not_mem_nil, or_false] at skip
  rcases skip with rfl | rfl | rfl | rfl | rfl
  · exact ⟨.set, rfl, rfl⟩
  · exact ⟨.mod, rfl, rfl⟩
  · exact ⟨.del, rfl, rfl⟩
  · exact ⟨.get, rfl, rfl⟩
  · exact ⟨.exist, rfl, rfl⟩

/-- What a command of the other family does: its reply depends on the answer of
the skip list. -/
theorem invoke_skip {invocation : Invocation}
    (skip : invocation.proc ∈ skipProcs) :
    ∃ reply : Answer → RespReply, ∀ globals : Globals Store,
      match invocation.operation with
      | none =>
          (invoke globals invocation).1.store.tables =
              globals.store.tables ∧
            (invoke globals invocation).2 = RespReply.plain .parseError
      | some operation =>
          (invoke globals invocation).1.store.tables =
              (globals.store.tables.operate invocation.call.flags.enableTtl
                invocation.call.world.level .skip operation).1 ∧
            (invoke globals invocation).2 =
              reply (globals.store.tables.operate
                invocation.call.flags.enableTtl invocation.call.world.level
                .skip operation).2 := by
  obtain ⟨proc, call⟩ := invocation
  obtain ⟨kind, named, rfl⟩ := storeKind_handler skip
  refine ⟨fun answer => kind.reply answer, ?_⟩
  intro globals
  rw [Invocation.operation, named, Option.bind_some]
  exact Family.run_handler .skip kind call globals

/-- What a `ZADD` does. -/
theorem invoke_zadd {globals : Globals Store} {invocation : Invocation}
    (adds : invocation.proc = .zadd)
    (valid : SkipValid globals.store.tables.skip) :
    SkipValid (invoke globals invocation).1.store.tables.skip ∧
      (invoke globals invocation).1.store.tables.hashes =
        globals.store.tables.hashes ∧
      (invoke globals invocation).1.store.tables.skip.entries =
        match invocation.composes with
        | none => globals.store.tables.skip.entries
        | some key =>
            put kvDataCompare Entry.key globals.store.tables.skip.entries
              { key := key, value := [], expireTime := 0 } := by
  obtain ⟨proc, call⟩ := invocation
  obtain rfl : proc = .zadd := adds
  simp only [Invocation.composes, invoke, Proc.run, Proc.onStore, cmdZadd,
    true_and]
  by_cases three : call.argc = 3
  · by_cases positive : 0 < call.number 1
    · rw [if_neg (not_not.mpr three), if_neg (Int.not_le.mpr positive),
        if_pos ⟨three, positive⟩]
      obtain ⟨after, entries⟩ := kvsZsetAdd_entries valid (call.number 1)
        (call.arg 2) call.world.level
      exact ⟨after, rfl, entries⟩
    · rw [if_neg (not_not.mpr three), if_pos (Int.not_lt.mp positive),
        if_neg (fun both => positive both.2)]
      exact ⟨valid, rfl, rfl⟩
  · rw [if_pos three, if_neg (fun both => three both.1)]
    exact ⟨valid, rfl, rfl⟩

/-! ## Runs that keep the families apart -/

/-- The key that a command stores in the skip list. -/
def Invocation.stores (invocation : Invocation) : Option Bytes :=
  match invocation.operation with
  | some (.set key _ _) => some key
  | some (.mod key _ _) => some key
  | _ => none

/-- The key that a command deletes from the skip list. -/
def Invocation.deletes (invocation : Invocation) : Option Bytes :=
  match invocation.operation with
  | some (.del key) => some key
  | _ => none

/-- A key lies below every key that a run composes. -/
def BelowComposed (inputs : List Invocation) (key : Bytes) : Prop :=
  ∀ other ∈ inputs, ∀ composed, other.composes = some composed →
    kvDataCompare key composed = .lt

/--
The keys that a run stores are shorter than 16 bytes and lie below the keys that
it composes, and it deletes no key that it composes.
-/
structure KeptApart (inputs : List Invocation) : Prop where
  stored : ∀ invocation ∈ inputs, ∀ key, invocation.stores = some key →
    key.length < 16 ∧ BelowComposed inputs key
  deleted : ∀ invocation ∈ inputs, ∀ key, invocation.deletes = some key →
    ∀ other ∈ inputs, other.composes ≠ some key

/-- A key below the composed ones is none of them. -/
theorem BelowComposed.ne {inputs : List Invocation} {key : Bytes}
    (below : BelowComposed inputs key) {other : Invocation}
    (member : other ∈ inputs) : other.composes ≠ some key :=
  fun same =>
    kvDataCompare_lt_irrefl key (below other member key same)

/-! ## The time index -/

/--
A list has, in front of composed keys, keys that are too short to carry an id
and lie below everything the run composes.
-/
def Fronted (inputs : List Invocation) (entries composed : List Entry) :
    Prop :=
  ∃ front, entries = front ++ composed ∧
    ∀ entry ∈ front, entry.key.length < 16 ∧ BelowComposed inputs entry.key

/--
A run with both families beside the run without `SSET`, `SMOD` and `SDEL`: the
first list has a front part that the second one lacks, and otherwise the same
composed keys.
-/
structure Indexed (inputs : List Invocation) (mixed alone : Globals Store) :
    Prop where
  valid : SkipValid mixed.store.tables.skip
  valid' : SkipValid alone.store.tables.skip
  records : mixed.store.tables.hashes = alone.store.tables.hashes
  parts : Fronted inputs mixed.store.tables.skip.entries
    alone.store.tables.skip.entries
  composed : ∀ entry ∈ alone.store.tables.skip.entries,
    entry.expireTime = 0 ∧
      ∃ other ∈ inputs, other.composes = some entry.key

/-- Keys that carry no id are of no concern to the time index, as long as an
`int` counts them. -/
theorem kvsZsetRecent_short {mixed alone : KvsSkip} {front : List Entry}
    (parts : mixed.entries = front ++ alone.entries)
    (short : ∀ entry ∈ front, entry.key.length < 16)
    (counted : mixed.entries.length < 2 ^ 31) (n : Int) :
    kvsZsetRecent mixed n = kvsZsetRecent alone n := by
  have silent : ∀ count,
      ((front.map (fun entry => entry.key)).drop count).filterMap
        zsetExtractId = [] := by
    intro count
    rw [List.filterMap_eq_nil_iff]
    intro key member
    obtain ⟨entry, inside, rfl⟩ :=
      List.mem_map.mp (List.mem_of_mem_drop member)
    rw [zsetExtractId, if_pos (short entry inside)]
  have total := congrArg List.length parts
  rw [List.length_append] at total
  rcases Int.lt_or_le 0 n with positive | negative
  · rw [kvsZsetRecent_of_counted positive counted,
      kvsZsetRecent_of_counted positive (by omega), parts, List.map_append,
      List.drop_append, List.filterMap_append, silent, List.nil_append,
      List.length_append, List.length_map]
    congr 3
    omega
  · rw [kvsZsetRecent, kvsZsetRecent, if_pos negative, if_pos negative]

/-- A call on the skip list, as its entries see it. -/
theorem operate_entries {tables : Tables} (valid : SkipValid tables.skip)
    (enableTtl : Bool) (level : Level) (operation : Operation) :
    SkipValid (tables.operate enableTtl level .skip operation).1.skip ∧
      (tables.operate enableTtl level .skip operation).1.skip.entries =
        (orderedStep enableTtl tables.skip.entries operation).1 := by
  obtain ⟨after, entries⟩ :=
    skipStep_ordered valid enableTtl operation level
  exact ⟨after, congrArg Prod.fst entries⟩

section Indexed

variable {inputs : List Invocation} (apart : KeptApart inputs)
  {mixed alone : Globals Store} (indexed : Indexed inputs mixed alone)

include indexed

/-- Another front part of the first list. -/
theorem Indexed.front {mixed' : Globals Store}
    (valid : SkipValid mixed'.store.tables.skip)
    (records : mixed'.store.tables.hashes = mixed.store.tables.hashes)
    (parts : Fronted inputs mixed'.store.tables.skip.entries
      alone.store.tables.skip.entries) :
    Indexed inputs mixed' alone :=
  ⟨valid, indexed.valid', records.trans indexed.records, parts,
    indexed.composed⟩

/-- The composed keys lie above a stored key. -/
theorem Indexed.above {key : Bytes} (below : BelowComposed inputs key) :
    ∀ other ∈ alone.store.tables.skip.entries,
      kvDataCompare other.key key = .gt := by
  intro other member
  obtain ⟨-, source, inside, composes⟩ := indexed.composed other member
  exact kvDataCompare_gt_iff.mpr (below source inside _ composes)

/-- Reading calls find composed keys unexpired. -/
theorem Indexed.read_alone (enableTtl : Bool) (now : Int) (key : Bytes) :
    (readEntries enableTtl now alone.store.tables.skip.entries key).1 =
      alone.store.tables.skip.entries := by
  rw [readEntries]
  cases found : lookup kvDataCompare Entry.key
      alone.store.tables.skip.entries key with
  | none => rfl
  | some entry =>
      have untimed := (indexed.composed entry
        (List.mem_of_find?_eq_some found)).1
      dsimp only
      rw [if_neg]
      rintro ⟨-, positive, -⟩
      omega

/-- Reading calls take at most a key of the front part. -/
theorem Indexed.read_mixed (enableTtl : Bool) (now : Int) (key : Bytes) :
    Fronted inputs
      (readEntries enableTtl now mixed.store.tables.skip.entries key).1
      alone.store.tables.skip.entries := by
  obtain ⟨front, parts, short⟩ := indexed.parts
  rw [readEntries]
  cases found : lookup kvDataCompare Entry.key
      mixed.store.tables.skip.entries key with
  | none => exact ⟨front, parts, short⟩
  | some entry =>
      dsimp only
      split_ifs with late
      · have member := List.mem_of_find?_eq_some found
        have same : entry.key = key := by simpa using List.find?_some found
        rw [parts, List.mem_append] at member
        rcases member with inFront | inBack
        · have kept : erase kvDataCompare Entry.key
              alone.store.tables.skip.entries key =
              alone.store.tables.skip.entries := by
            apply erase_of_apart
            intro other inside equal
            have above := indexed.above (short entry inFront).2 other inside
            rw [equal, same] at above
            simp at above
          refine ⟨erase kvDataCompare Entry.key front key, ?_, ?_⟩
          · rw [parts, erase, List.filter_append]
            exact congrArg (_ ++ ·) kept
          · intro other inside
            exact short other (List.mem_filter.mp inside).1
        · have untimed := (indexed.composed entry inBack).1
          have positive := late.2.1
          omega
      · exact ⟨front, parts, short⟩

/-- A stored key joins the front part. -/
theorem Indexed.put_front (key value : Bytes) (expireTime : Int)
    (size : key.length < 16) (below : BelowComposed inputs key) :
    Fronted inputs
      (put kvDataCompare Entry.key mixed.store.tables.skip.entries
        { key := key, value := value, expireTime := expireTime })
      alone.store.tables.skip.entries := by
  obtain ⟨front, parts, short⟩ := indexed.parts
  refine ⟨put kvDataCompare Entry.key front
    { key := key, value := value, expireTime := expireTime }, ?_, ?_⟩
  · rw [parts, put_append_left (indexed.above below)]
  · intro entry member
    rcases mem_put member with rfl | inside
    · exact ⟨size, below⟩
    · exact short entry inside

/-- A deletion leaves the composed keys that it does not name. -/
theorem Indexed.erase_front {key : Bytes}
    (foreign : ∀ other ∈ inputs, other.composes ≠ some key) :
    Fronted inputs
      (erase kvDataCompare Entry.key mixed.store.tables.skip.entries key)
      alone.store.tables.skip.entries := by
  obtain ⟨front, parts, short⟩ := indexed.parts
  have kept : erase kvDataCompare Entry.key
      alone.store.tables.skip.entries key =
      alone.store.tables.skip.entries := by
    apply erase_of_apart
    intro entry member same
    obtain ⟨-, other, inside, composes⟩ := indexed.composed entry member
    rw [same] at composes
    exact foreign other inside composes
  refine ⟨erase kvDataCompare Entry.key front key, ?_, ?_⟩
  · rw [parts, erase, List.filter_append]
    exact congrArg (_ ++ ·) kept
  · intro entry member
    exact short entry (List.mem_filter.mp member).1

/-- A call on the skip list that leaves the composed keys in their place. -/
theorem Indexed.operated {invocation : Invocation} {operation : Operation}
    (skip : invocation.proc ∈ skipProcs)
    (makes : invocation.operation = some operation)
    (parts : Fronted inputs
      (orderedStep invocation.call.flags.enableTtl
        mixed.store.tables.skip.entries operation).1
      alone.store.tables.skip.entries) :
    Indexed inputs (invoke mixed invocation).1 alone := by
  obtain ⟨reply, effects⟩ := invoke_skip skip
  have effect := effects mixed
  rw [makes] at effect
  obtain ⟨valid, after⟩ := operate_entries indexed.valid
    invocation.call.flags.enableTtl invocation.call.world.level operation
  refine indexed.front ?_ ?_ ?_
  · rw [effect.1]
    exact valid
  · rw [effect.1]
    rfl
  · rw [effect.1, after]
    exact parts

/-- A composed key joins the composed keys of both lists. -/
theorem Indexed.added {invocation : Invocation} (member : invocation ∈ inputs)
    (adds : invocation.proc = .zadd) :
    Indexed inputs (invoke mixed invocation).1 (invoke alone invocation).1 := by
  obtain ⟨valid, records, entries⟩ := invoke_zadd adds indexed.valid
  obtain ⟨valid', records', entries'⟩ := invoke_zadd adds indexed.valid'
  refine ⟨valid, valid', ?_, ?_, ?_⟩
  · rw [records, records', indexed.records]
  · obtain ⟨front, parts, short⟩ := indexed.parts
    refine ⟨front, ?_, short⟩
    rw [entries, entries']
    cases composes : invocation.composes with
    | none => exact parts
    | some key =>
        dsimp only
        rw [parts, put_append_right]
        intro entry inFront
        exact (short entry inFront).2 invocation member key composes
  · intro entry inside
    rw [entries'] at inside
    cases composes : invocation.composes with
    | none =>
        rw [composes] at inside
        exact indexed.composed entry inside
    | some key =>
        rw [composes] at inside
        rcases mem_put inside with rfl | earlier
        · exact ⟨rfl, invocation, member, composes⟩
        · exact indexed.composed entry earlier

/-- Reading commands of the other family change the front part only. -/
theorem Indexed.reads {invocation : Invocation}
    (reads : invocation.proc ∈ [Proc.skipGet, .skipExists]) :
    Indexed inputs (invoke mixed invocation).1 (invoke alone invocation).1 := by
  have skip : invocation.proc ∈ skipProcs := by
    simp only [List.mem_cons, List.not_mem_nil, or_false] at reads
    rcases reads with same | same <;> rw [same] <;> decide
  have reading : ∀ operation, invocation.operation = some operation →
      ∃ now key, operation = .get now key ∨ operation = .exist now key := by
    obtain ⟨proc, call⟩ := invocation
    simp only [List.mem_cons, List.not_mem_nil, or_false] at reads
    intro operation makes
    rcases reads with rfl | rfl <;>
      · simp only [Invocation.operation, storeKind, Option.bind_some,
          Kind.operation] at makes
        split_ifs at makes
        cases makes
        simp
  obtain ⟨reply, effects⟩ := invoke_skip skip
  have effect := effects mixed
  have effect' := effects alone
  cases makes : invocation.operation with
  | none =>
      rw [makes] at effect effect'
      refine ⟨?_, ?_, ?_, ?_, ?_⟩
      all_goals simp only [effect.1, effect'.1]
      · exact indexed.valid
      · exact indexed.valid'
      · exact indexed.records
      · exact indexed.parts
      · exact indexed.composed
  | some operation =>
      obtain ⟨now, key, which⟩ := reading operation makes
      have fronted : Fronted inputs
          (orderedStep invocation.call.flags.enableTtl
            mixed.store.tables.skip.entries operation).1
          alone.store.tables.skip.entries := by
        rcases which with rfl | rfl <;> exact indexed.read_mixed _ now key
      have still : (orderedStep invocation.call.flags.enableTtl
          alone.store.tables.skip.entries operation).1 =
          alone.store.tables.skip.entries := by
        rcases which with rfl | rfl <;> exact indexed.read_alone _ now key
      have mixedAfter := indexed.operated skip makes fronted
      rw [makes] at effect'
      obtain ⟨valid', entries'⟩ := operate_entries indexed.valid'
        invocation.call.flags.enableTtl invocation.call.world.level operation
      refine ⟨mixedAfter.valid, ?_, ?_, ?_, ?_⟩
      · rw [effect'.1]
        exact valid'
      · rw [effect'.1]
        exact mixedAfter.records
      · rw [effect'.1, entries', still]
        exact mixedAfter.parts
      · rw [effect'.1, entries', still]
        exact indexed.composed

/-- `SETREC` stores the same record. -/
theorem Indexed.recorded {invocation : Invocation}
    (records : invocation.proc = .setrec) :
    Indexed inputs (invoke mixed invocation).1 (invoke alone invocation).1 := by
  obtain ⟨proc, call⟩ := invocation
  obtain rfl : proc = .setrec := records
  simp only [invoke, Proc.run, Proc.onStore, cmdSetrec]
  split_ifs
  · exact indexed
  · refine ⟨indexed.valid, indexed.valid', ?_, indexed.parts, indexed.composed⟩
    simp only [Store.operate, Tables.operate, indexed.records]

/-- `ZRANGE` and `ZRANGEREC` answer alike and leave the skip list. -/
theorem Indexed.ranges {invocation : Invocation}
    (ranges : invocation.proc ∈ [Proc.zrange, .zrangerec])
    (counted : mixed.store.tables.skip.entries.length < 2 ^ 31) :
    Indexed inputs (invoke mixed invocation).1 (invoke alone invocation).1 ∧
      (invoke mixed invocation).2 = (invoke alone invocation).2 := by
  obtain ⟨proc, call⟩ := invocation
  obtain ⟨front, parts, short⟩ := id indexed.parts
  have recent := kvsZsetRecent_short parts
    (fun entry member => (short entry member).1) counted
  let related : Store → Store → Prop := fun store store' =>
    Indexed inputs { mixed with store := store }
      { alone with store := store' }
  simp only [List.mem_cons, List.not_mem_nil, or_false] at ranges
  rcases ranges with rfl | rfl
  · exact @ranging_alike related _ _ call _ _ recent indexed
      (fun _ => ⟨indexed, rfl⟩)
  · refine @ranging_alike related _ _ call _ _ recent indexed (fun ids => ?_)
    simp only [buildRecordsNewline, Store.setHash, indexed.records]
    exact ⟨⟨indexed.valid, indexed.valid', rfl, indexed.parts,
      indexed.composed⟩, trivial⟩

include apart

/-- Storing and deleting commands change the front part only. -/
theorem Indexed.skips {invocation : Invocation}
    (member : invocation ∈ inputs)
    (gone : invocation.proc ∈ [Proc.skipSet, .skipMod, .skipDel]) :
    Indexed inputs (invoke mixed invocation).1 alone := by
  have skip : invocation.proc ∈ skipProcs := by
    simp only [List.mem_cons, List.not_mem_nil, or_false] at gone
    rcases gone with same | same | same <;> rw [same] <;> decide
  cases makes : invocation.operation with
  | none =>
      obtain ⟨reply, effects⟩ := invoke_skip skip
      have effect := effects mixed
      rw [makes] at effect
      refine indexed.front ?_ ?_ ?_
      · rw [effect.1]
        exact indexed.valid
      · rw [effect.1]
      · rw [effect.1]
        exact indexed.parts
  | some operation =>
      apply indexed.operated skip makes
      cases operation with
      | set key value expireTime =>
          have stored := apart.stored invocation member key
            (by rw [Invocation.stores, makes])
          exact indexed.put_front key value expireTime stored.1 stored.2
      | mod key value expireTime =>
          have stored := apart.stored invocation member key
            (by rw [Invocation.stores, makes])
          exact indexed.put_front key value expireTime stored.1 stored.2
      | del key =>
          exact indexed.erase_front (apart.deleted invocation member key
            (by rw [Invocation.deletes, makes]))
      | get now key => exact indexed.read_mixed _ now key
      | exist now key => exact indexed.read_mixed _ now key
      | delIfExpired key expectedExpire =>
          exact absurd makes (invocation.operation_ne_expire _ _)

end Indexed

/-! ## The keys of the store -/

/-- The key that a command reads from the skip list. -/
def Invocation.reads (invocation : Invocation) : Option Bytes :=
  match invocation.operation with
  | some (.get _ key) => some key
  | some (.exist _ key) => some key
  | _ => none

/-- No `ZADD` of a run composes a key. -/
def Uncomposed (inputs : List Invocation) (key : Bytes) : Prop :=
  ∀ other ∈ inputs, other.composes ≠ some key

/--
A run with both families beside the run without `ZADD`: the two lists have the
same contents at the keys that are not composed.
-/
structure Beside (inputs : List Invocation) (mixed alone : Globals Store) :
    Prop where
  valid : SkipValid mixed.store.tables.skip
  valid' : SkipValid alone.store.tables.skip
  same : ∀ key, Uncomposed inputs key →
    contents mixed.store.tables.skip.entries key =
      contents alone.store.tables.skip.entries key

/-- A call on the skip list, as its contents see it. -/
theorem operate_contents {tables : Tables} (valid : SkipValid tables.skip)
    (enableTtl : Bool) (level : Level) (operation : Operation) :
    SkipValid (tables.operate enableTtl level .skip operation).1.skip ∧
      contents (tables.operate enableTtl level .skip operation).1.skip.entries =
        ((contents tables.skip.entries).step enableTtl operation).1 ∧
      (tables.operate enableTtl level .skip operation).2 =
        ((contents tables.skip.entries).step enableTtl operation).2 := by
  obtain ⟨⟨after, map⟩, answer⟩ := skipStep_represents enableTtl
    ⟨valid, rfl⟩ (operation, level)
  exact ⟨after, map, answer⟩

/-- `ZRANGE`, `ZRANGEREC` and `SETREC` leave the skip list. -/
theorem invoke_foreign {globals : Globals Store} {invocation : Invocation}
    (foreign : invocation.proc ∈ [Proc.zrange, .zrangerec, .setrec]) :
    (invoke globals invocation).1.store.tables.skip =
      globals.store.tables.skip := by
  obtain ⟨proc, call⟩ := invocation
  simp only [List.mem_cons, List.not_mem_nil, or_false] at foreign
  let kept : Store → Prop := fun store =>
    store.tables.skip = globals.store.tables.skip
  rcases foreign with rfl | rfl | rfl
  · exact @ranging_store kept _ _ _ rfl (fun _ => rfl)
  · exact @ranging_store kept _ _ _ rfl (fun _ => rfl)
  · simp only [invoke, Proc.run, Proc.onStore, cmdSetrec]
    split_ifs <;> rfl

section Beside

variable {inputs : List Invocation} {mixed alone : Globals Store}
  (beside : Beside inputs mixed alone)

include beside

/-- A `ZADD` changes the first list at a composed key. -/
theorem Beside.added {invocation : Invocation} (member : invocation ∈ inputs)
    (adds : invocation.proc = .zadd) :
    Beside inputs (invoke mixed invocation).1 alone := by
  obtain ⟨valid, -, entries⟩ := invoke_zadd adds beside.valid
  refine ⟨valid, beside.valid', ?_⟩
  intro key uncomposed
  rw [entries, ← beside.same key uncomposed]
  cases composes : invocation.composes with
  | none => rfl
  | some composed =>
      dsimp only
      rw [contents_put]
      refine if_neg ?_
      rintro rfl
      exact uncomposed invocation member composes

/-- The commands of the store make the same change in both lists. -/
theorem Beside.stored {invocation : Invocation}
    (skip : invocation.proc ∈ skipProcs) :
    Beside inputs (invoke mixed invocation).1 (invoke alone invocation).1 ∧
      ∀ key, invocation.reads = some key → Uncomposed inputs key →
        (invoke mixed invocation).2 = (invoke alone invocation).2 := by
  obtain ⟨reply, effects⟩ := invoke_skip skip
  have effect := effects mixed
  have effect' := effects alone
  cases makes : invocation.operation with
  | none =>
      rw [makes] at effect effect'
      refine ⟨⟨?_, ?_, ?_⟩, fun _ _ _ => effect.2.trans effect'.2.symm⟩
      all_goals simp only [effect.1, effect'.1]
      · exact beside.valid
      · exact beside.valid'
      · exact beside.same
  | some operation =>
      rw [makes] at effect effect'
      obtain ⟨valid, map, answer⟩ := operate_contents beside.valid
        invocation.call.flags.enableTtl invocation.call.world.level operation
      obtain ⟨valid', map', answer'⟩ := operate_contents beside.valid'
        invocation.call.flags.enableTtl invocation.call.world.level operation
      refine ⟨⟨?_, ?_, ?_⟩, ?_⟩
      · rw [effect.1]
        exact valid
      · rw [effect'.1]
        exact valid'
      · intro key uncomposed
        rw [effect.1, effect'.1, map, map']
        by_cases own : key = operation.key
        · subst own
          exact (step_congr _ (beside.same _ uncomposed)).1
        · rw [step_of_ne _ _ _ own, step_of_ne _ _ _ own]
          exact beside.same key uncomposed
      · intro key reads uncomposed
        have own : operation.key = key := by
          rw [Invocation.reads, makes] at reads
          cases operation <;> first | exact Option.some.inj reads | cases reads
        subst own
        rw [effect.2, effect'.2, answer, answer',
          (step_congr _ (beside.same _ uncomposed)).2]

/-- The other commands leave both lists. -/
theorem Beside.foreign {invocation : Invocation}
    (foreign : invocation.proc ∈ [Proc.zrange, .zrangerec, .setrec]) :
    Beside inputs (invoke mixed invocation).1 (invoke alone invocation).1 := by
  obtain ⟨valid, valid', same⟩ := beside
  constructor
  · rw [invoke_foreign foreign]
    exact valid
  · rw [invoke_foreign foreign]
    exact valid'
  · rw [invoke_foreign foreign, invoke_foreign foreign]
    exact same

end Beside

/-! ## Interleavings -/

/-- `SSET`, `SMOD` and `SDEL`. -/
def storing (invocation : Invocation) : Bool :=
  decide (invocation.proc ∈ [Proc.skipSet, .skipMod, .skipDel])

/-- `ZADD`. -/
def adding (invocation : Invocation) : Bool :=
  decide (invocation.proc = .zadd)

/-- `ZRANGE` and `ZRANGEREC`. -/
def ranging (invocation : Invocation) : Bool :=
  decide (invocation.proc ∈ [Proc.zrange, .zrangerec])

/-- An `int` counts the skip list that a range command meets. -/
def Counted (globals : Globals Store) (invocation : Invocation) : Prop :=
  ranging invocation = true →
    globals.store.tables.skip.entries.length < 2 ^ 31

instance (globals : Globals Store) (invocation : Invocation) :
    Decidable (Counted globals invocation) :=
  inferInstanceAs (Decidable (_ → _))

/-- `SGET` and `SEXISTS` on a key that an `SSET` of the run sets. -/
def readsStored (inputs : List Invocation) (invocation : Invocation) : Bool :=
  invocation.reads.isSome &&
    inputs.any (fun other =>
      decide (other.proc = .skipSet ∧ other.stores = invocation.reads))

/--
The two families do not see each other: `ZRANGE` and `ZRANGEREC` are answered as
without `SSET`, `SMOD` and `SDEL`, and `SGET` and `SEXISTS` on keys that `SSET`
sets are answered as without `ZADD`.
-/
def Unmixed (globals : Globals Store) (inputs : List Invocation) : Prop :=
  answersTo invoke ranging globals inputs =
      answersTo invoke ranging globals
        (inputs.filter (fun input => !storing input)) ∧
    answersTo invoke (readsStored inputs) globals inputs =
      answersTo invoke (readsStored inputs) globals
        (inputs.filter (fun input => !adding input))

section Interleavings

variable {globals : Globals Store} {inputs : List Invocation}
  (valid : SkipValid globals.store.tables.skip)
  (empty : globals.store.tables.skip.entries = [])
  (shared : ∀ invocation ∈ inputs, invocation.proc ∈ sharedProcs)
  (apart : KeptApart inputs)

include valid shared apart

include empty in
theorem ranges_unmixed (counted : Along invoke Counted globals inputs) :
    answersTo invoke ranging globals inputs =
      answersTo invoke ranging globals
        (inputs.filter (fun input => !storing input)) := by
  refine @answersTo_removed _ _ _ invoke ranging storing
    (fun globals input => input ∈ inputs ∧ Counted globals input)
    (Indexed inputs) ?_ ?_ ?_ inputs globals globals
    ((along_of_forall (fun _ member => member) globals).and counted) ?_
  · intro invocation gone
    simp only [storing, decide_eq_true_eq, List.mem_cons, List.not_mem_nil,
      or_false] at gone
    rw [ranging, decide_eq_false_iff_not]
    rcases gone with same | same | same <;> rw [same] <;> decide
  · rintro mixed alone invocation ⟨member, -⟩ gone indexed
    exact indexed.skips apart member (of_decide_eq_true gone)
  · rintro mixed alone invocation ⟨member, counted⟩ stays indexed
    have proc := shared invocation member
    rw [storing, decide_eq_false_iff_not] at stays
    by_cases ranges : invocation.proc ∈ [Proc.zrange, .zrangerec]
    · obtain ⟨next, answer⟩ := indexed.ranges ranges
        (counted (decide_eq_true ranges))
      exact ⟨next, fun _ => answer⟩
    · refine ⟨?_, fun asked => absurd (of_decide_eq_true asked) ranges⟩
      simp only [sharedProcs, List.mem_cons, List.not_mem_nil,
        or_false] at proc stays ranges
      rcases proc with zadd | zrange | zrangerec | setrec | set | mod | del |
        get | exist
      · exact indexed.added member zadd
      · exact absurd (Or.inl zrange) ranges
      · exact absurd (Or.inr zrangerec) ranges
      · exact indexed.recorded setrec
      · exact absurd (Or.inl set) stays
      · exact absurd (Or.inr (Or.inl mod)) stays
      · exact absurd (Or.inr (Or.inr del)) stays
      · exact indexed.reads (by simp [get])
      · exact indexed.reads (by simp [exist])
  · refine ⟨valid, valid, rfl, ⟨[], rfl, by simp⟩, ?_⟩
    rw [empty]
    simp

theorem reads_unmixed :
    answersTo invoke (readsStored inputs) globals inputs =
      answersTo invoke (readsStored inputs) globals
        (inputs.filter (fun input => !adding input)) := by
  refine @answersTo_removed _ _ _ invoke (readsStored inputs) adding
    (fun _ input => input ∈ inputs) (Beside inputs) ?_ ?_ ?_ inputs globals
    globals (along_of_forall (fun _ member => member) globals) ?_
  · intro invocation gone
    have none : invocation.reads = none := by
      rw [Invocation.reads, Invocation.operation, of_decide_eq_true gone]
      rfl
    rw [readsStored, none]
    rfl
  · intro mixed alone invocation member gone beside
    exact beside.added member (of_decide_eq_true gone)
  · intro mixed alone invocation member stays beside
    have proc := shared invocation member
    rw [adding, decide_eq_false_iff_not] at stays
    by_cases skip : invocation.proc ∈ skipProcs
    · obtain ⟨next, answer⟩ := beside.stored skip
      refine ⟨next, ?_⟩
      intro asked
      obtain ⟨some, stored⟩ := Bool.and_eq_true_iff.mp asked
      obtain ⟨key, reads⟩ := Option.isSome_iff_exists.mp some
      obtain ⟨other, inside, sets⟩ := List.any_eq_true.mp stored
      have stores := (of_decide_eq_true sets).2.trans reads
      exact answer key reads
        (fun _ => (apart.stored other inside key stores).2.ne)
    · have foreign : invocation.proc ∈
          [Proc.zrange, .zrangerec, .setrec] := by
        simp only [sharedProcs, skipProcs, List.mem_cons, List.not_mem_nil,
          or_false] at proc skip ⊢
        tauto
      refine ⟨beside.foreign foreign, ?_⟩
      intro asked
      have none : invocation.reads = none := by
        simp only [List.mem_cons, List.not_mem_nil, or_false] at foreign
        rcases foreign with same | same | same <;>
          · rw [Invocation.reads, Invocation.operation, same]
            rfl
      rw [readsStored, none] at asked
      cases asked
  · exact ⟨valid, valid, fun _ _ => rfl⟩

end Interleavings

/--
In every run of the two families from an empty skip list whose stored keys are
shorter than 16 bytes and sort before the composed keys, and that deletes no
composed key, the families do not see each other, as long as `ZRANGE` and
`ZRANGEREC` meet fewer than 2^31 nodes.
-/
theorem families_unmixed {globals : Globals Store} {inputs : List Invocation}
    (valid : SkipValid globals.store.tables.skip)
    (empty : globals.store.tables.skip.entries = [])
    (shared : ∀ invocation ∈ inputs, invocation.proc ∈ sharedProcs)
    (apart : KeptApart inputs)
    (counted : Along invoke Counted globals inputs) :
    Unmixed globals inputs :=
  ⟨ranges_unmixed valid empty shared apart counted,
    reads_unmixed valid shared apart⟩

/-- A handler called with the arguments of one request, without TTL. -/
def invocationOf (proc : Proc) (args : List Bytes) : Invocation :=
  { proc := proc
    call :=
      { flags := plainFlags
        mem := respEncode args
        req := respUnpackNoModify (respEncode args) 0 (respEncode args).length
        world := default } }

/-- `ZADD 1 a`, `SSET ! v`, `ZRANGE 0 0` and `SGET !`. -/
def apartRun : List Invocation :=
  [invocationOf .zadd [ascii "ZADD", ascii "1", ascii "a"],
    invocationOf .skipSet [ascii "SSET", ascii "!", ascii "v"],
    invocationOf .zrange [ascii "ZRANGE", ascii "0", ascii "0"],
    invocationOf .skipGet [ascii "SGET", ascii "!"]]

/-- A stored key that sorts before the composed ones. -/
theorem families_unmixed_apartRun :
    Unmixed (freshSession (fun _ => default)).globals apartRun :=
  families_unmixed skipValid_create entries_create (by decide +kernel)
    ⟨by
      have stored : ∀ invocation ∈ apartRun, ∀ key ∈ invocation.stores,
          key.length < 16 ∧ ∀ other ∈ apartRun, ∀ composed ∈ other.composes,
            kvDataCompare key composed = .lt := by
        decide +kernel
      exact stored,
    by
      have deleted : ∀ invocation ∈ apartRun, ∀ key ∈ invocation.deletes,
          ∀ other ∈ apartRun, other.composes ≠ some key := by
        decide +kernel
      exact deleted⟩
    ⟨by decide +kernel, by decide +kernel, by decide +kernel,
      by decide +kernel, trivial⟩

/-- `ZADD 1 a`, `SSET user v` and `ZRANGE 0 0`. -/
def mixedRun : List Invocation :=
  [invocationOf .zadd [ascii "ZADD", ascii "1", ascii "a"],
    invocationOf .skipSet [ascii "SSET", ascii "user", ascii "v"],
    invocationOf .zrange [ascii "ZRANGE", ascii "0", ascii "0"]]

/-- A stored key that sorts after the composed ones takes the place of the most
recent id. -/
theorem families_mixed :
    answersTo invoke ranging (freshSession (fun _ => default)).globals
        mixedRun =
        [RespReply.plain .noExists] ∧
      answersTo invoke ranging (freshSession (fun _ => default)).globals
        (mixedRun.filter (fun input => !storing input)) =
        [RespReply.bulk (ascii "a")] ∧
      ¬ Unmixed (freshSession (fun _ => default)).globals mixedRun := by
  have mixed : answersTo invoke ranging
      (freshSession (fun _ => default)).globals mixedRun =
      [RespReply.plain .noExists] := by
    decide +kernel
  have alone : answersTo invoke ranging
      (freshSession (fun _ => default)).globals
      (mixedRun.filter (fun input => !storing input)) =
      [RespReply.bulk (ascii "a")] := by
    decide +kernel
  refine ⟨mixed, alone, ?_⟩
  rintro ⟨same, -⟩
  rw [mixed, alone] at same
  cases same

end Kivo.Server.TimeIndex
