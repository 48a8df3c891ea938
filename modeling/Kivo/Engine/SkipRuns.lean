import Kivo.Engine.KeyMap
import Kivo.Engine.SkipOrder

/-!
# Runs of the skip list engine

A run is any sequence of calls on a fresh list, each with the level that
`random_level` draws for it.  Along a run the lists of all levels stay
consistent, every call answers as the map of the engine does whatever levels
were drawn, and `kvs_skip_foreach` visits the entries that are not expired in
key order.  The counter of the nodes is an `int` and is right as long as it can
count them.
-/

namespace Kivo.Engine.SkipRuns

open Kivo.Clib.Memory
open Kivo.Clib.Chain
open Kivo.Clib.SortedList
open Kivo.Clib.Simulation
open Kivo.Engine.Data
open Kivo.Engine.KeyMap
open Kivo.Engine.SkipEngine
open Kivo.Engine.SkipOrder

/-! ## Calls -/

/-- A level that `random_level` can draw. -/
abbrev Level : Type :=
  Fin (maxLevel + 1)

instance (priority := high) : NeZero (maxLevel + 1) := ⟨Nat.succ_ne_zero maxLevel⟩

/-- A call of the engine, with the level drawn for it. -/
def skipStep (enableTtl : Bool) (skip : KvsSkip) :
    Operation × Level → KvsSkip × Answer
  | (.set key value expireTime, level) =>
      let result := kvsSkipSet skip key value expireTime level
      (result.1, .status result.2)
  | (.mod key value expireTime, level) =>
      let result := kvsSkipMod skip key value expireTime level
      (result.1, .status result.2)
  | (.get now key, _) =>
      let result := kvsSkipGet enableTtl now skip key
      (result.1, .value result.2)
  | (.exist now key, _) =>
      let result := kvsSkipExist enableTtl now skip key
      (result.1, .status result.2)
  | (.del key, _) =>
      let result := kvsSkipDel skip key
      (result.1, .status result.2)
  | (.delIfExpired key expectedExpire, _) =>
      let result := kvsSkipDelIfExpired skip key expectedExpire
      (result.1, .status (if result.2 then 1 else 0))

/-- A call on a valid list is the call on the sorted list of its entries. -/
theorem skipStep_ordered {skip : KvsSkip} (valid : SkipValid skip)
    (enableTtl : Bool) (operation : Operation) (level : Level) :
    SkipValid (skipStep enableTtl skip (operation, level)).1 ∧
      ((skipStep enableTtl skip (operation, level)).1.entries,
        (skipStep enableTtl skip (operation, level)).2) =
        orderedStep enableTtl skip.entries operation := by
  have small : level.val ≤ maxLevel := Nat.le_of_lt_succ level.isLt
  cases operation with
  | set key value expireTime =>
      obtain ⟨after, entries, status⟩ :=
        kvsSkipSet_put valid key value expireTime small
      refine ⟨after, ?_⟩
      simp only [skipStep, orderedStep, entries, status]
  | mod key value expireTime =>
      obtain ⟨after, entries, status⟩ :=
        kvsSkipSet_put valid key value expireTime small
      refine ⟨after, ?_⟩
      simp only [skipStep, orderedStep, kvsSkipMod, entries, status]
  | get now key =>
      obtain ⟨after, read⟩ := kvsSkipGet_lookup valid enableTtl now key
      obtain ⟨entries, found⟩ := Prod.ext_iff.mp
        (read.trans (show _ = readEntries enableTtl now skip.entries key
          from rfl))
      refine ⟨after, ?_⟩
      simp only [skipStep, orderedStep, ← entries, ← found]
  | exist now key =>
      obtain ⟨after, read⟩ := kvsSkipGet_lookup valid enableTtl now key
      obtain ⟨entries, found⟩ := Prod.ext_iff.mp
        (read.trans (show _ = readEntries enableTtl now skip.entries key
          from rfl))
      refine ⟨after, ?_⟩
      simp only [skipStep, orderedStep, kvsSkipExist, ← entries, ← found]
      cases (kvsSkipGet enableTtl now skip key).2 <;> rfl
  | del key =>
      obtain ⟨after, entries, status⟩ := kvsSkipDel_erase valid key
      refine ⟨after, ?_⟩
      simp only [skipStep, orderedStep, entries, status]
  | delIfExpired key expectedExpire =>
      obtain ⟨after, read⟩ :=
        kvsSkipDelIfExpired_erase valid key expectedExpire
      obtain ⟨entries, found⟩ := Prod.ext_iff.mp
        (read.trans (show _ = expireEntries skip.entries key expectedExpire
          from rfl))
      refine ⟨after, ?_⟩
      simp only [skipStep, orderedStep, ← entries, ← found]

/-! ## The lists of the levels -/

/-- The nodes of a level, as its links run. -/
def levelList (skip : KvsSkip) (level : Nat) : List Nat :=
  walk (skip.forwardAt level) null skip.next header

/--
The representation invariant: the list of every level ends in the null
pointer, increases strictly and holds exactly the nodes of that level or
higher; `skip->level` bounds the levels of the nodes and `count` is their
number.
-/
structure SkipInvariant (skip : KvsSkip) : Prop where
  ends : ∀ level, level ≤ maxLevel →
    Linked (skip.forwardAt level) null header (levelList skip level)
  increasing : ∀ level, level ≤ maxLevel →
    Sorted kvDataCompare (keyAt skip) (levelList skip level)
  reaching : ∀ level, level ≤ maxLevel →
    levelList skip level =
      (levelList skip 0).filter
        (fun address => decide (level ≤ (skip.nodes address).level))
  bounded : ∀ address ∈ levelList skip 0,
    (skip.nodes address).level ≤ skip.level
  count : skip.count = (levelList skip 0).length

theorem SkipOk.levelList_eq {skip : KvsSkip} {order : List Nat}
    (ok : SkipOk skip order) {level : Nat} (low : level ≤ maxLevel) :
    levelList skip level = onLevel skip order level := by
  refine (ok.linked level low).walk_eq ?_ ?_
  · intro member
    exact ok.null_notMem (mem_of_mem_onLevel member)
  · exact lt_of_le_of_lt (List.length_filter_le _ _) ok.length_lt

theorem SkipOk.levelList_zero {skip : KvsSkip} {order : List Nat}
    (ok : SkipOk skip order) : levelList skip 0 = order := by
  rw [SkipOk.levelList_eq ok (Nat.zero_le _), onLevel_zero]

theorem SkipOk.entries_length {skip : KvsSkip} {order : List Nat}
    (ok : SkipOk skip order) : skip.entries.length = order.length := by
  rw [ok.entries_eq, List.length_map]

theorem SkipValid.invariant {skip : KvsSkip} (valid : SkipValid skip)
    (counted : skip.entries.length < 2 ^ 31) :
    SkipInvariant skip := by
  obtain ⟨order, ok⟩ := valid
  have base := SkipOk.levelList_zero ok
  rw [SkipOk.entries_length ok] at counted
  refine ⟨?_, ?_, ?_, ?_, ?_⟩
  · intro level low
    rw [SkipOk.levelList_eq ok low]
    exact ok.linked level low
  · intro level low
    rw [SkipOk.levelList_eq ok low]
    exact List.Pairwise.filter _ ok.sorted
  · intro level low
    rw [SkipOk.levelList_eq ok low, base]
    rfl
  · rw [base]
    exact ok.bounded
  · rw [base, ok.count]
    exact toInt32_of_range (by omega) (by omega)

/-- An `int` that is the number of the nodes is below `2 ^ 31`. -/
theorem SkipInvariant.counted {skip : KvsSkip} (invariant : SkipInvariant skip)
    (valid : SkipValid skip) : skip.entries.length < 2 ^ 31 := by
  obtain ⟨order, ok⟩ := valid
  have count := invariant.count
  have bounds := toInt32_bounds order.length
  rw [SkipOk.levelList_zero ok, ok.count] at count
  rw [SkipOk.entries_length ok]
  omega

/-! ## The walk -/

/-- The loop of `kvs_skip_foreach` visits the entries of a chain that are not
expired. -/
theorem skipForeachLoop_eq {skip : KvsSkip} (now : Int)
    (checkExpire : Bool) {order : List Nat} {start fuel : Nat}
    (linked : Linked (skip.forwardAt 0) null start order)
    (proper : null ∉ order) (enough : order.length < fuel) :
    skipForeachLoop skip now checkExpire fuel (skip.forwardAt 0 start) =
      unexpired checkExpire now
        (order.map (fun address => (skip.nodes address).entry)) := by
  induction order generalizing start fuel with
  | nil =>
      have stop : skip.forwardAt 0 start = null := linked.1
      rw [stop]
      cases fuel <;> rfl
  | cons node rest induction =>
      have next : skip.forwardAt 0 start = node := linked.1
      obtain ⟨here, there⟩ := not_or.mp (fun member =>
        proper (List.mem_cons.mpr member))
      cases fuel with
      | zero => omega
      | succ fuel =>
          have remaining := induction linked.2 there
            (Nat.lt_of_succ_lt_succ enough)
          rw [next, skipForeachLoop, if_neg (Ne.symm here), List.map_cons,
            unexpired_cons, ← remaining]

theorem kvsSkipForeach_eq {skip : KvsSkip} (valid : SkipValid skip)
    (enableTtl : Bool) (now : Int) :
    kvsSkipForeach enableTtl now skip =
      unexpired enableTtl now skip.entries := by
  obtain ⟨order, ok⟩ := valid
  have linked := ok.linked 0 (Nat.zero_le _)
  rw [onLevel_zero] at linked
  rw [ok.entries_eq]
  exact skipForeachLoop_eq now enableTtl linked ok.null_notMem ok.length_lt

theorem SkipValid.entries_sorted {skip : KvsSkip} (valid : SkipValid skip) :
    Sorted kvDataCompare Entry.key skip.entries := by
  obtain ⟨order, ok⟩ := valid
  rw [ok.entries_eq, Sorted, List.pairwise_map]
  exact ok.sorted

/-! ## Runs -/

/-- The list that stands for a map. -/
def Represents (skip : KvsSkip) (map : Contents) : Prop :=
  SkipValid skip ∧ contents skip.entries = map

theorem skipStep_represents (enableTtl : Bool) {skip : KvsSkip}
    {map : Contents} (represents : Represents skip map)
    (input : Operation × Level) :
    Represents (skipStep enableTtl skip input).1
        (map.step enableTtl input.1).1 ∧
      (skipStep enableTtl skip input).2 =
        (map.step enableTtl input.1).2 := by
  obtain ⟨valid, rfl⟩ := represents
  obtain ⟨after, result⟩ :=
    skipStep_ordered valid enableTtl input.1 input.2
  obtain ⟨entries, answer⟩ := Prod.ext_iff.mp result
  have simulated := orderedStep_contents enableTtl skip.entries input.1
  rw [← simulated, ← answer]
  exact ⟨⟨after, by rw [← entries]⟩, rfl⟩

/-- A call on the map; the level drawn for it is of no concern. -/
def mapStep (enableTtl : Bool) (map : Contents)
    (input : Operation × Level) : Contents × Answer :=
  map.step enableTtl input.1

theorem skipRun_represents (enableTtl : Bool)
    (inputs : List (Operation × Level)) :
    Represents (run (skipStep enableTtl) kvsSkipCreate inputs).1
        (run (mapStep enableTtl) Contents.empty inputs).1 ∧
      (run (skipStep enableTtl) kvsSkipCreate inputs).2 =
        (run (mapStep enableTtl) Contents.empty inputs).2 := by
  refine @run_simulation _ _ _ _ _ _ (fun _ _ => True) Represents ?_ _ _ ?_
    _ (along_of_forall (fun _ _ => trivial) _)
  · intro skip map input represents _
    exact skipStep_represents enableTtl represents input
  · exact ⟨skipValid_create, by rw [entries_create]; rfl⟩

/--
What a run brings about: the representation invariant, the answers of the map,
and its contents, of which the walk visits exactly the entries that are not
expired, in strictly increasing key order.
-/
structure Refines (enableTtl : Bool) (inputs : List (Operation × Level)) :
    Prop where
  invariant :
    SkipInvariant (run (skipStep enableTtl) kvsSkipCreate inputs).1
  answers : (run (skipStep enableTtl) kvsSkipCreate inputs).2 =
    (run (mapStep enableTtl) Contents.empty inputs).2
  stored : contents (run (skipStep enableTtl) kvsSkipCreate inputs).1.entries =
    (run (mapStep enableTtl) Contents.empty inputs).1
  increasing : ∀ now, (kvsSkipForeach enableTtl now
    (run (skipStep enableTtl) kvsSkipCreate inputs).1).Pairwise
      (fun first second => kvDataCompare first.key second.key = .lt)
  visited : ∀ now entry, entry ∈ kvsSkipForeach enableTtl now
      (run (skipStep enableTtl) kvsSkipCreate inputs).1 ↔
    (run (mapStep enableTtl) Contents.empty inputs).1 entry.key =
        some (item entry) ∧
      ¬ Expired enableTtl now entry.expireTime

/-- A run refines the map exactly when an `int` counts the nodes at its end. -/
theorem refines_iff_counted (enableTtl : Bool)
    (inputs : List (Operation × Level)) :
    Refines enableTtl inputs ↔
      (run (skipStep enableTtl) kvsSkipCreate inputs).1.entries.length <
        2 ^ 31 := by
  obtain ⟨⟨valid, stored⟩, answers⟩ := skipRun_represents enableTtl inputs
  constructor
  · intro refines
    exact SkipInvariant.counted refines.invariant valid
  · intro counted
    have sorted := SkipValid.entries_sorted valid
    refine ⟨SkipValid.invariant valid counted, answers, stored, ?_, ?_⟩
    · intro now
      rw [kvsSkipForeach_eq valid]
      exact List.Pairwise.filter _ sorted
    · intro now entry
      rw [← stored, kvsSkipForeach_eq valid]
      exact mem_unexpired_contents (distinct_of_sorted sorted)

/-! ## Room for a new key -/

/-- The call stores no new key behind `2 ^ 31 - 1` nodes. -/
def HasRoom (skip : KvsSkip) : Operation × Level → Prop
  | (.set key _ _, _) =>
      contents skip.entries key = none → skip.entries.length + 1 < 2 ^ 31
  | (.mod key _ _, _) =>
      contents skip.entries key = none → skip.entries.length + 1 < 2 ^ 31
  | _ => True

theorem readEntries_length_le (enableTtl : Bool) (now : Int)
    (entries : List Entry) (key : Bytes) :
    (readEntries enableTtl now entries key).1.length ≤ entries.length := by
  rw [readEntries]
  split
  · exact le_rfl
  · split_ifs
    · exact List.length_filter_le _ _
    · exact le_rfl

theorem expireEntries_length_le (entries : List Entry) (key : Bytes)
    (expectedExpire : Int) :
    (expireEntries entries key expectedExpire).1.length ≤ entries.length := by
  rw [expireEntries]
  split
  · exact le_rfl
  · split_ifs
    · exact List.length_filter_le _ _
    · exact le_rfl

theorem put_length {skip : KvsSkip} (valid : SkipValid skip) (entry : Entry) :
    (put kvDataCompare Entry.key skip.entries entry).length =
      if contents skip.entries entry.key = none then skip.entries.length + 1
      else skip.entries.length := by
  rw [(SkipValid.entries_sorted valid).length_put]
  simp only [contents, Option.map_eq_none_iff]

/-- On a list that an `int` counts, the calls with room are those behind which
it still counts the nodes. -/
theorem skipStep_counted_iff (enableTtl : Bool) {skip : KvsSkip}
    (valid : SkipValid skip) (counted : skip.entries.length < 2 ^ 31)
    (input : Operation × Level) :
    (skipStep enableTtl skip input).1.entries.length < 2 ^ 31 ↔
      HasRoom skip input := by
  obtain ⟨operation, level⟩ := input
  have ordered := congrArg Prod.fst
    (skipStep_ordered valid enableTtl operation level).2
  dsimp only at ordered
  rw [ordered]
  cases operation with
  | set key value expireTime =>
      rw [orderedStep, put_length valid, HasRoom]
      split_ifs with new
      · exact ⟨fun room _ => room, fun room => room new⟩
      · exact iff_of_true counted (fun absent => absurd absent new)
  | mod key value expireTime =>
      rw [orderedStep, put_length valid, HasRoom]
      split_ifs with new
      · exact ⟨fun room _ => room, fun room => room new⟩
      · exact iff_of_true counted (fun absent => absurd absent new)
  | get now key =>
      exact iff_of_true
        ((readEntries_length_le enableTtl now _ key).trans_lt counted) trivial
  | exist now key =>
      exact iff_of_true
        ((readEntries_length_le enableTtl now _ key).trans_lt counted) trivial
  | del key =>
      exact iff_of_true
        ((List.length_filter_le _ _).trans_lt counted) trivial
  | delIfExpired key expectedExpire =>
      exact iff_of_true
        ((expireEntries_length_le _ key expectedExpire).trans_lt counted)
        trivial

theorem counted_of_room {enableTtl : Bool} {inputs : List (Operation × Level)}
    (room : Along (skipStep enableTtl) HasRoom kvsSkipCreate inputs) :
    (run (skipStep enableTtl) kvsSkipCreate inputs).1.entries.length <
      2 ^ 31 := by
  refine (@run_invariant _ _ _ _ _
    (fun skip => SkipValid skip ∧ skip.entries.length < 2 ^ 31) ?_ _ ?_ _
    room).2
  · intro skip input holds fits
    exact ⟨(skipStep_ordered holds.1 enableTtl input.1 input.2).1,
      (skipStep_counted_iff enableTtl holds.1 holds.2 input).mpr fits⟩
  · exact ⟨skipValid_create, by rw [entries_create]; decide⟩

/--
Every front part of a run refines the map exactly when no call of the run stores
a new key behind `2 ^ 31 - 1` nodes: then the counter, an `int`, wraps.
-/
theorem skipRun_refines_map (enableTtl : Bool)
    (inputs : List (Operation × Level)) :
    (∀ front, front <+: inputs → Refines enableTtl front) ↔
      Along (skipStep enableTtl) HasRoom kvsSkipCreate inputs := by
  constructor
  · intro refines
    rw [along_iff_fronts]
    intro front input longer
    obtain ⟨⟨valid, -⟩, -⟩ := skipRun_represents enableTtl front
    have before := (refines_iff_counted enableTtl front).mp
      (refines front ((List.prefix_append _ _).trans longer))
    have after := (refines_iff_counted enableTtl (front ++ [input])).mp
      (refines (front ++ [input]) longer)
    rw [run_append] at after
    exact (skipStep_counted_iff enableTtl valid before input).mp after
  · intro room front shorter
    rw [refines_iff_counted]
    apply counted_of_room
    rw [along_iff_fronts] at room ⊢
    exact fun part input longer => room part input (longer.trans shorter)

/-! ## The counter that wraps -/

/-- Set the first keys of the series. -/
def fillInputs (number : Nat) : List (Operation × Level) :=
  (List.range number).map (fun index => (.set (serialKey index) [] 0, 0))

theorem fillInputs_succ (number : Nat) :
    fillInputs (number + 1) =
      fillInputs number ++ [(.set (serialKey number) [] 0, 0)] := by
  rw [fillInputs, List.range_succ, List.map_append]
  rfl

/-- The list that holds exactly the first keys of the series. -/
structure Filled (skip : KvsSkip) (number : Nat) : Prop where
  valid : SkipValid skip
  size : skip.entries.length = number
  stored : ∀ entry ∈ skip.entries, ∃ index, index < number ∧
    entry = { key := serialKey index, value := [], expireTime := 0 }

theorem filled_run (enableTtl : Bool) {number : Nat}
    (small : number < 2 ^ 32) :
    Filled (run (skipStep enableTtl) kvsSkipCreate (fillInputs number)).1
      number := by
  induction number with
  | zero =>
      have empty : (run (skipStep enableTtl) kvsSkipCreate
          (fillInputs 0)).1.entries = [] := entries_create
      refine ⟨skipValid_create, by rw [empty]; rfl, ?_⟩
      rw [empty]
      intro entry member
      exact absurd member List.not_mem_nil
  | succ number induction =>
      obtain ⟨valid, size, old⟩ := induction (by omega)
      rw [fillInputs_succ, run_append]
      generalize (run (skipStep enableTtl) kvsSkipCreate
        (fillInputs number)).1 = skip at valid size old
      obtain ⟨after, entries⟩ := skipStep_ordered valid enableTtl
        (.set (serialKey number) [] 0) 0
      have stored : (skipStep enableTtl skip
          (.set (serialKey number) [] 0, 0)).1.entries =
          put kvDataCompare Entry.key skip.entries
            { key := serialKey number, value := [], expireTime := 0 } :=
        congrArg Prod.fst entries
      have new : contents skip.entries (serialKey number) = none := by
        rw [contents, Option.map_eq_none_iff]
        refine List.find?_eq_none.mpr (fun entry member equal => ?_)
        obtain ⟨index, below, rfl⟩ := old entry member
        have key := Std.LawfulEqCmp.eq_of_compare (of_decide_eq_true equal)
        have number := serialKey_injective (by omega) (by omega) key
        omega
      refine ⟨after, ?_, ?_⟩
      · have length := put_length valid
          { key := serialKey number, value := [], expireTime := 0 }
        rw [if_pos new, size] at length
        exact (congrArg List.length stored).trans length
      · intro entry member
        have inside : entry ∈ put kvDataCompare Entry.key skip.entries
            { key := serialKey number, value := [], expireTime := 0 } :=
          stored ▸ member
        rcases mem_put inside with rfl | before
        · exact ⟨number, Nat.lt_succ_self number, rfl⟩
        · obtain ⟨index, below, same⟩ := old entry before
          exact ⟨index, Nat.lt_succ_of_lt below, same⟩

/-- A list of `2 ^ 31` nodes counts them as `-2 ^ 31`. -/
theorem skipRun_miscounts :
    (run (skipStep false) kvsSkipCreate (fillInputs (2 ^ 31))).1.count =
        -2 ^ 31 ∧
      ¬ Refines false (fillInputs (2 ^ 31)) := by
  have filled := filled_run false (show 2 ^ 31 < 2 ^ 32 by decide)
  have size := filled.size
  obtain ⟨order, ok⟩ := filled.valid
  constructor
  · rw [ok.count, ← SkipOk.entries_length ok, size]
    decide
  · rw [refines_iff_counted, size]
    decide

end Kivo.Engine.SkipRuns
