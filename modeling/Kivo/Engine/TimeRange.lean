import Kivo.Engine.Maps
import Kivo.Engine.TimeKeys

/-!
# Queries of the sorted set

`kvs_zset_recent` counts the members and takes the last ones.
`kvs_zset_range` walks the list twice, once to count the ids between two
timestamps and once to collect them; both walks compare the first fifteen bytes
of the keys as strings and stop behind the upper timestamp.  In a skip list
that `kvs_zset_add` has filled with timestamps of fifteen digits, both queries
are those of the set of members in the order of timestamps and ids.
-/

namespace Kivo.Engine.TimeRange

open Kivo.Clib.Memory
open Kivo.Clib.Numeral
open Kivo.Clib.PaddedNumeral
open Kivo.Clib.SortedList (Sorted put)
open Kivo.Engine.Data
open Kivo.Engine.KeyMap
open Kivo.Engine.Maps
open Kivo.Engine.SkipEngine
open Kivo.Engine.SkipOrder
open Kivo.Engine.SkipRuns
open Kivo.Engine.Store
open Kivo.Engine.TimeKeys

/-! ## The range query -/

/-- The sign of `strncmp`: a terminator ends the comparison. -/
def strncmp : Nat → Bytes → Bytes → Ordering
  | 0, _, _ => .eq
  | count + 1, left, right =>
      if left.headD 0 < right.headD 0 then .lt
      else if right.headD 0 < left.headD 0 then .gt
      else if left.headD 0 = 0 then .eq
      else strncmp count left.tail right.tail

theorem strncmp_cons_cons (count : Nat) (left right : UInt8)
    (lefts rights : Bytes) :
    strncmp (count + 1) (left :: lefts) (right :: rights) =
      if left < right then .lt
      else if right < left then .gt
      else if left = 0 then .eq
      else strncmp count lefts rights :=
  rfl

/-- The output of `"%015lld"` in a buffer of 20 bytes. -/
def zsetPrefix (ts : Int) : Bytes :=
  (if ts < 0 then 45 :: padded 14 ts.natAbs else padded 15 ts.toNat).take 19

/-- The first walk of `kvs_zset_range`. -/
def zsetCount (lowest highest : Bytes) : List Bytes → Nat
  | [] => 0
  | key :: rest =>
      if key.length < 16 then zsetCount lowest highest rest
      else if strncmp 15 key lowest = .lt then zsetCount lowest highest rest
      else if strncmp 15 key highest = .gt then 0
      else zsetCount lowest highest rest + 1

/-- The second walk, with the number of ids that the array still takes. -/
def zsetCollect (lowest highest : Bytes) : Nat → List Bytes → List Bytes
  | _, [] => []
  | 0, _ :: _ => []
  | left + 1, key :: rest =>
      if key.length < 16 then zsetCollect lowest highest (left + 1) rest
      else if strncmp 15 key lowest = .lt then
        zsetCollect lowest highest (left + 1) rest
      else if strncmp 15 key highest = .gt then []
      else
        match zsetExtractId key with
        | none => zsetCollect lowest highest (left + 1) rest
        | some id => id :: zsetCollect lowest highest left rest

/-- `kvs_zset_range`: the size of the array and the ids in it, or an error.  The
members are counted in an `int`. -/
def kvsZsetRange (skip : KvsSkip) (minTs maxTs : Int) :
    Option (Nat × List Bytes) :=
  if maxTs < minTs then none
  else
    let keys := skip.entries.map Entry.key
    let count := toInt32
      (zsetCount (zsetPrefix minTs) (zsetPrefix maxTs) keys)
    if count = 0 then some (0, [])
    else if count < 0 then none
    else
      some (count.toNat,
        zsetCollect (zsetPrefix minTs) (zsetPrefix maxTs) count.toNat keys)

/-! ## Members -/

/-- Timestamps first, then the bytes of the ids. -/
def Earlier (left right : Int × Bytes) : Prop :=
  left.1 < right.1 ∨
    left.1 = right.1 ∧ kvDataCompare left.2 right.2 = .lt

/-- The timestamp has at most fifteen digits. -/
def Stamped (member : Int × Bytes) : Prop :=
  0 < member.1 ∧ member.1 < 10 ^ 15

/-- `kvs_zset_add` takes the id: it is not empty and the key fits in the
buffer. -/
def Accepted (member : Int × Bytes) : Prop :=
  0 < member.2.length ∧ member.2.length < 112

instance (member : Int × Bytes) : Decidable (Accepted member) :=
  inferInstanceAs (Decidable (_ ∧ _))

/-- The key of a member. -/
def composed (member : Int × Bytes) : Bytes :=
  padded 15 member.1.toNat ++ 58 :: member.2

/-- The skip list holds these members and nothing else, in order. -/
structure Lists (skip : KvsSkip) (members : List (Int × Bytes)) : Prop where
  keys : skip.entries.map Entry.key = members.map composed
  ordered : members.Pairwise Earlier
  stamped : ∀ member ∈ members, Stamped member

theorem Stamped.width {member : Int × Bytes} (stamped : Stamped member) :
    (padded 15 member.1.toNat).length = 15 := by
  have narrow := stamped.2
  exact padded_length (by decide) (by omega)

/-- The key of `kvs_zset_add`, when it stores one. -/
theorem zsetKey_eq {member : Int × Bytes} (stamped : Stamped member) :
    zsetKey member.1 member.2 =
      if Accepted member then some (composed member) else none := by
  have width := stamped.width
  rw [zsetKey, zsetMakeKey, zsetStamp_eq, List.length_append, width,
    List.length_singleton, List.append_assoc, List.singleton_append]
  by_cases accepted : Accepted member
  · have nonempty := accepted.1
    have short := accepted.2
    rw [if_pos accepted, if_neg (by omega), if_neg (by omega), composed]
  · rw [if_neg accepted]
    by_cases empty : member.2.length = 0
    · rw [if_pos empty]
    · have long : 112 ≤ member.2.length := by
        by_contra short
        exact accepted ⟨by omega, by omega⟩
      rw [if_neg empty, if_pos (by omega)]

/-- `kvs_zset_add` succeeds exactly with the ids that it takes. -/
theorem kvsZsetAdd_accepts {skip : KvsSkip} (valid : SkipValid skip)
    {member : Int × Bytes} (stamped : Stamped member) (level : Level) :
    (kvsZsetAdd skip member.1 member.2 level).2 = 0 ↔ Accepted member := by
  have key := zsetKey_eq stamped
  rw [zsetKey] at key
  rw [kvsZsetAdd]
  by_cases empty : member.2.length = 0
  · rw [if_pos empty]
    have refused : ¬ Accepted member := fun accepted => by
      have nonempty := accepted.1
      omega
    exact iff_of_false (by simp) refused
  · rw [if_neg empty] at key ⊢
    rw [key]
    by_cases accepted : Accepted member
    · rw [if_pos accepted]
      exact iff_of_true (kvsSkipSet_put valid _ [] 0
        (Nat.le_of_lt_succ level.isLt)).2.2 accepted
    · rw [if_neg accepted]
      exact iff_of_false (by simp) accepted

/-- Members and their keys are in the same order. -/
theorem composed_lt_iff {left right : Int × Bytes} (stamped : Stamped left)
    (stamped' : Stamped right) :
    kvDataCompare (composed left) (composed right) = .lt ↔
      Earlier left right := by
  rw [composed, composed, kvDataCompare_stamps left.2 right.2 stamped.1
    stamped'.1 stamped.2 stamped'.2, Ordering.then_eq_lt, Int.compare_eq_lt,
    Int.compare_eq_eq, Earlier]

/-! ## Filling the skip list -/

/-- The skip list after calls of `kvs_zset_add`, each with the level that it
draws. -/
def filled (adds : List ((Int × Bytes) × Level)) : KvsSkip :=
  adds.foldl (fun skip add => (kvsZsetAdd skip add.1.1 add.1.2 add.2).1)
    kvsSkipCreate

/-- The members that the calls have added. -/
def Added (adds : List ((Int × Bytes) × Level)) (member : Int × Bytes) :
    Prop :=
  (∃ level, (member, level) ∈ adds) ∧ Accepted member

theorem mem_put_keys {entries : List Entry} {entry : Entry} {key : Bytes} :
    key ∈ (put kvDataCompare Entry.key entries entry).map Entry.key ↔
      key = entry.key ∨ key ∈ entries.map Entry.key := by
  constructor
  · intro member
    obtain ⟨other, inside, rfl⟩ := List.mem_map.mp member
    rw [put, List.mem_append, List.mem_cons] at inside
    rcases inside with below | rfl | above
    · exact Or.inr (List.mem_map_of_mem (List.mem_filter.mp below).1)
    · exact Or.inl rfl
    · exact Or.inr (List.mem_map_of_mem (List.mem_filter.mp above).1)
  · rintro (rfl | member)
    · exact List.mem_map_of_mem
        (List.mem_append_right _ List.mem_cons_self)
    · obtain ⟨other, inside, rfl⟩ := List.mem_map.mp member
      rw [put, List.map_append, List.map_cons, List.mem_append,
        List.mem_cons]
      cases order : kvDataCompare other.key entry.key with
      | lt =>
          left
          exact List.mem_map_of_mem (List.mem_filter.mpr
            ⟨inside, by rw [order]; rfl⟩)
      | eq => exact Or.inr (Or.inl (kvDataCompare_eq_iff.mp order))
      | gt =>
          right
          right
          exact List.mem_map_of_mem (List.mem_filter.mpr
            ⟨inside, by rw [order]; rfl⟩)

/-- The keys of the filled list. -/
theorem filled_keys (adds : List ((Int × Bytes) × Level)) :
    SkipValid (filled adds) ∧
      ∀ key, key ∈ (filled adds).entries.map Entry.key ↔
        ∃ add ∈ adds, zsetKey add.1.1 add.1.2 = some key := by
  induction adds using List.reverseRecOn with
  | nil =>
      refine ⟨skipValid_create, ?_⟩
      intro key
      rw [filled, List.foldl_nil, entries_create]
      simp
  | append_singleton adds add induction =>
      obtain ⟨valid, keys⟩ := induction
      obtain ⟨after, entries⟩ :=
        kvsZsetAdd_entries valid add.1.1 add.1.2 add.2
      have last : filled (adds ++ [add]) =
          (kvsZsetAdd (filled adds) add.1.1 add.1.2 add.2).1 := by
        rw [filled, List.foldl_append, List.foldl_cons, List.foldl_nil, filled]
      rw [last]
      refine ⟨after, ?_⟩
      intro key
      rw [entries]
      cases stored : zsetKey add.1.1 add.1.2 with
      | none =>
          dsimp only
          rw [keys]
          simp only [List.mem_append, List.mem_singleton, or_and_right,
            exists_or, exists_eq_left, stored, reduceCtorEq, or_false]
      | some other =>
          dsimp only
          rw [mem_put_keys, keys]
          simp only [List.mem_append, List.mem_singleton, or_and_right,
            exists_or, exists_eq_left, stored, Option.some_inj]
          rw [or_comm, eq_comm]

/-- The member of a key. -/
def decoded (key : Bytes) : Int × Bytes :=
  (digitsValue (key.take 15), key.drop 16)

theorem decoded_composed {member : Int × Bytes} (stamped : Stamped member) :
    decoded (composed member) = member := by
  have width := stamped.width
  have positive := stamped.1
  have front : (composed member).take 15 = padded 15 member.1.toNat := by
    rw [composed, List.take_append_of_le_length (by omega),
      List.take_of_length_le (by omega)]
  have back : (composed member).drop 16 = member.2 := by
    rw [composed, List.drop_append, List.drop_eq_nil_of_le (by omega), width]
    rfl
  rw [decoded, front, back, digitsValue_padded]
  exact Prod.ext (by simp only; omega) rfl

/-- A filled list holds the added members, in order and each of them once. -/
theorem filled_lists {adds : List ((Int × Bytes) × Level)}
    (stamped : ∀ add ∈ adds, Stamped add.1) :
    ∃ members, Lists (filled adds) members ∧
      ∀ member, member ∈ members ↔ Added adds member := by
  obtain ⟨valid, keys⟩ := filled_keys adds
  have origin : ∀ key ∈ (filled adds).entries.map Entry.key,
      ∃ member, Added adds member ∧ Stamped member ∧
        key = composed member := by
    intro key inside
    obtain ⟨add, added, stored⟩ := (keys key).mp inside
    rw [zsetKey_eq (stamped add added)] at stored
    split_ifs at stored with accepted
    exact ⟨add.1, ⟨⟨add.2, added⟩, accepted⟩, stamped add added,
      (Option.some.inj stored).symm⟩
  have back : ∀ key ∈ (filled adds).entries.map Entry.key,
      Stamped (decoded key) ∧ composed (decoded key) = key := by
    intro key inside
    obtain ⟨member, -, proper, rfl⟩ := origin key inside
    rw [decoded_composed proper]
    exact ⟨proper, rfl⟩
  have sorted : ((filled adds).entries.map Entry.key).Pairwise
      (fun left right => kvDataCompare left right = .lt) :=
    List.pairwise_map.mpr (SkipRuns.SkipValid.entries_sorted valid)
  refine ⟨((filled adds).entries.map Entry.key).map decoded,
    ⟨?_, ?_, ?_⟩, ?_⟩
  · rw [List.map_map]
    exact ((List.map_congr_left
      (fun key inside => (back key inside).2)).trans (List.map_id _)).symm
  · rw [List.pairwise_map]
    refine sorted.imp_of_mem ?_
    intro left right inside inside' below
    rw [← composed_lt_iff (back left inside).1 (back right inside').1,
      (back left inside).2, (back right inside').2]
    exact below
  · intro member inside
    obtain ⟨key, stored, rfl⟩ := List.mem_map.mp inside
    exact (back key stored).1
  · intro member
    constructor
    · intro inside
      obtain ⟨key, stored, rfl⟩ := List.mem_map.mp inside
      obtain ⟨other, added, proper, rfl⟩ := origin key stored
      rw [decoded_composed proper]
      exact added
    · rintro ⟨⟨level, added⟩, accepted⟩
      have proper : Stamped member := stamped _ added
      rw [← decoded_composed proper]
      refine List.mem_map_of_mem ((keys _).mpr ⟨_, added, ?_⟩)
      rw [zsetKey_eq proper, if_pos accepted]

/-! ## Queries on members -/

section Queries

variable {skip : KvsSkip} {members : List (Int × Bytes)}

theorem composed_length {member : Int × Bytes} (stamped : Stamped member) :
    ¬ (composed member).length < 16 := by
  rw [composed, List.length_append, stamped.width, List.length_cons]
  omega

theorem zsetExtractId_composed {member : Int × Bytes}
    (stamped : Stamped member) :
    zsetExtractId (composed member) = some member.2 := by
  rw [zsetExtractId, if_neg (composed_length stamped)]
  exact congrArg (fun pair => some pair.2) (decoded_composed stamped)

/-- The ids behind a list of keys. -/
theorem filterMap_composed (stamped : ∀ member ∈ members, Stamped member) :
    (members.map composed).filterMap zsetExtractId =
      members.map Prod.snd := by
  rw [List.filterMap_map, ← List.filterMap_eq_map]
  exact List.filterMap_congr
    (fun member inside => zsetExtractId_composed (stamped member inside))

theorem Lists.entries_length (lists : Lists skip members) :
    skip.entries.length = members.length := by
  have keys := congrArg List.length lists.keys
  rwa [List.length_map, List.length_map] at keys

/-- The ids of the members of a window. -/
theorem Lists.collectIds (lists : Lists skip members) (window : Nat × Nat) :
    SkipEngine.collectIds (skip.entries.map Entry.key) window =
      ((members.drop window.1).take window.2).map Prod.snd := by
  rw [SkipEngine.collectIds, lists.keys, ← List.map_drop,
    filterMap_composed (fun member inside =>
      lists.stamped member (List.mem_of_mem_drop inside)), List.map_take]

/-- `kvs_zset_recent` takes the last members, as long as an `int` counts
them. -/
theorem Lists.recent (lists : Lists skip members) {n : Int}
    (positive : 0 < n) (counted : members.length < 2 ^ 31) :
    kvsZsetRecent skip n =
      some ((members.drop (members.length - min n.toNat members.length)).map
        Prod.snd) := by
  rw [← lists.entries_length] at counted
  rw [kvsZsetRecent_of_counted positive counted, lists.entries_length]
  change some (((skip.entries.map Entry.key).drop _).filterMap _) = _
  rw [lists.keys, ← List.map_drop, filterMap_composed (fun member inside =>
    lists.stamped member (List.mem_of_mem_drop inside))]
  congr 3
  omega

/-- Among digits no terminator ends the comparison. -/
theorem strncmp_digits {left right : Bytes}
    (same : left.length = right.length)
    (digits : ∀ byte ∈ left, isDigit byte = true) (rest : Bytes) :
    strncmp left.length (left ++ rest) right = kvDataCompare left right := by
  induction left generalizing right with
  | nil =>
      rw [List.eq_nil_of_length_eq_zero same.symm]
      rfl
  | cons byte lefts induction =>
      cases right with
      | nil => cases same
      | cons byte' rights =>
          have printed : byte ≠ 0 := by
            rintro rfl
            exact absurd (digits 0 List.mem_cons_self) (by decide)
          rw [List.length_cons, List.cons_append, strncmp_cons_cons,
            kvDataCompare_cons_cons, if_neg printed,
            induction (Nat.succ.inj same) (fun other member =>
              digits other (List.mem_cons_of_mem _ member))]

/-- The first fifteen bytes of a key stand for its timestamp. -/
theorem strncmp_composed {member : Int × Bytes} (stamped : Stamped member)
    {ts : Int} (nonnegative : 0 ≤ ts) (narrow : ts < 10 ^ 15) :
    strncmp 15 (composed member) (zsetPrefix ts) = compare member.1 ts := by
  have positive := stamped.1
  have width := @padded_length 15 ts.toNat (by decide) (by omega)
  have bound : zsetPrefix ts = padded 15 ts.toNat := by
    rw [zsetPrefix, if_neg (by omega), List.take_of_length_le (by omega)]
  have same := stamped.width.trans width.symm
  have front := strncmp_digits same (fun _ => isDigit_of_mem_padded)
    (58 :: member.2)
  rw [stamped.width] at front
  rw [bound, composed, front,
    kvDataCompare_digits same (fun _ => isDigit_of_mem_padded)
      (fun _ => isDigit_of_mem_padded),
    digitsValue_padded, digitsValue_padded, Nat.compare_eq_ite_lt,
    Int.compare_eq_ite_lt]
  split_ifs <;> first | rfl | omega

/-- The timestamp lies between two timestamps. -/
def Within (low high : Int) (member : Int × Bytes) : Prop :=
  low ≤ member.1 ∧ member.1 ≤ high

instance (low high : Int) : DecidablePred (Within low high) :=
  fun _ => inferInstanceAs (Decidable (_ ∧ _))

section Walks

variable {low high : Int} (nonnegative : 0 ≤ low) (upward : low ≤ high)
  (narrow : high < 10 ^ 15) (ordered : members.Pairwise Earlier)
  (stamped : ∀ member ∈ members, Stamped member)

include ordered in
/-- Behind the upper timestamp there is nothing to find. -/
theorem filter_beyond {member : Int × Bytes} {rest : List (Int × Bytes)}
    (split : members = member :: rest) (beyond : high < member.1) :
    members.filter (Within low high) = [] := by
  rw [split, List.pairwise_cons] at ordered
  rw [split, List.filter_eq_nil_iff]
  intro other inside within
  have last := (of_decide_eq_true within).2
  rcases List.mem_cons.mp inside with rfl | later
  · omega
  · have before := ordered.1 other later
    rw [Earlier] at before
    omega

/-- What both walks do with a member: pass it, stop at it or take it. -/
theorem within_cases (low high : Int) (member : Int × Bytes) :
    compare member.1 low = .lt ∧ ¬ Within low high member ∨
      compare member.1 low ≠ .lt ∧ compare member.1 high = .gt ∧
        high < member.1 ∨
      compare member.1 low ≠ .lt ∧ compare member.1 high ≠ .gt ∧
        Within low high member := by
  simp only [Ne, Int.compare_eq_lt, Int.compare_eq_gt, Within]
  omega

include nonnegative upward narrow ordered stamped

/-- The first walk counts the members between the timestamps. -/
theorem zsetCount_eq :
    zsetCount (zsetPrefix low) (zsetPrefix high) (members.map composed) =
      (members.filter (Within low high)).length := by
  induction members with
  | nil => rfl
  | cons member rest induction =>
      have proper := stamped member List.mem_cons_self
      have later := induction ordered.of_cons
        (fun other inside => stamped other (List.mem_cons_of_mem _ inside))
      rw [List.map_cons, zsetCount, if_neg (composed_length proper),
        strncmp_composed proper nonnegative (by omega),
        strncmp_composed proper (by omega) narrow, later]
      rcases within_cases low high member with
        ⟨below, outside⟩ | ⟨above, stop, beyond⟩ | ⟨above, inside, within⟩
      · rw [if_pos below, List.filter_cons_of_neg (by simpa using outside)]
      · rw [if_neg above, if_pos stop, filter_beyond ordered rfl beyond]
        rfl
      · rw [if_neg above, if_neg inside,
          List.filter_cons_of_pos (by simpa using within), List.length_cons]

/-- The second walk collects the ids of the same members. -/
theorem zsetCollect_eq (left : Nat) :
    zsetCollect (zsetPrefix low) (zsetPrefix high) left
        (members.map composed) =
      ((members.filter (Within low high)).take left).map Prod.snd := by
  induction members generalizing left with
  | nil => simp [zsetCollect]
  | cons member rest induction =>
      have proper := stamped member List.mem_cons_self
      have later := fun left => induction ordered.of_cons
        (fun other inside => stamped other (List.mem_cons_of_mem _ inside))
        left
      cases left with
      | zero => simp [zsetCollect]
      | succ left =>
          rw [List.map_cons, zsetCollect, if_neg (composed_length proper),
            strncmp_composed proper nonnegative (by omega),
            strncmp_composed proper (by omega) narrow,
            zsetExtractId_composed proper]
          rcases within_cases low high member with
            ⟨below, outside⟩ | ⟨above, stop, beyond⟩ |
              ⟨above, inside, within⟩
          · rw [if_pos below, later,
              List.filter_cons_of_neg (by simpa using outside)]
          · rw [if_neg above, if_pos stop, filter_beyond ordered rfl beyond]
            rfl
          · rw [if_neg above, if_neg inside,
              List.filter_cons_of_pos (by simpa using within)]
            dsimp only
            rw [later, List.take_succ_cons, List.map_cons]

end Walks

/-- `kvs_zset_range` finds the members between the timestamps, and the second
walk fills the array that the first one has measured, as long as an `int`
counts them. -/
theorem Lists.range (lists : Lists skip members) {low high : Int}
    (nonnegative : 0 ≤ low) (upward : low ≤ high) (narrow : high < 10 ^ 15)
    (counted : members.length < 2 ^ 31) :
    kvsZsetRange skip low high =
      some ((members.filter (Within low high)).length,
        (members.filter (Within low high)).map Prod.snd) := by
  have fewer := List.length_filter_le (Within low high) members
  rw [kvsZsetRange, if_neg (by omega), lists.keys]
  dsimp only
  rw [zsetCount_eq nonnegative upward narrow lists.ordered lists.stamped,
    toInt32_of_range (by omega) (by omega)]
  split_ifs with empty negative
  · rw [List.eq_nil_of_length_eq_zero (Int.natCast_eq_zero.mp empty)]
    rfl
  · omega
  · rw [Int.toNat_natCast,
      zsetCollect_eq nonnegative upward narrow lists.ordered lists.stamped,
      List.take_length]

/-- The whole range. -/
theorem Lists.filter_whole (lists : Lists skip members) :
    members.filter (Within 0 (10 ^ 15 - 1)) = members := by
  rw [List.filter_eq_self]
  intro member inside
  have stamped := lists.stamped member inside
  exact decide_eq_true ⟨stamped.1.le, Int.le_sub_one_of_lt stamped.2⟩

/-- The array of the whole range has the size that an `int` gives it. -/
theorem Lists.range_whole (lists : Lists skip members) {size : Nat}
    {ids : List Bytes}
    (found : kvsZsetRange skip 0 (10 ^ 15 - 1) = some (size, ids)) :
    (size : Int) = toInt32 members.length := by
  rw [kvsZsetRange, if_neg (by decide), lists.keys] at found
  dsimp only at found
  rw [zsetCount_eq le_rfl (by decide) (by decide) lists.ordered lists.stamped,
    lists.filter_whole] at found
  split_ifs at found with empty negative
  · cases found
    exact empty.symm
  · obtain ⟨rfl, -⟩ := Prod.mk.inj (Option.some.inj found)
    exact Int.toNat_of_nonneg (Int.not_lt.mp negative)

/-- Both queries of a skip list are those of a sorted set. -/
structure Queries (skip : KvsSkip) (members : List (Int × Bytes)) : Prop where
  recent : ∀ n : Int, 1 ≤ n → n < 2 ^ 31 →
    kvsZsetRecent skip n =
      some ((members.drop (members.length - min n.toNat members.length)).map
        Prod.snd)
  range : ∀ low high, 0 ≤ low → low ≤ high → high < 10 ^ 15 →
    kvsZsetRange skip low high =
      some ((members.filter (Within low high)).length,
        (members.filter (Within low high)).map Prod.snd)

theorem Lists.queries_iff (lists : Lists skip members) :
    Queries skip members ↔ members.length < 2 ^ 31 := by
  constructor
  · intro queries
    have whole := queries.range 0 (10 ^ 15 - 1) le_rfl (by decide) (by decide)
    have bounds := toInt32_bounds members.length
    have size := lists.range_whole whole
    rw [lists.filter_whole] at size
    omega
  · intro counted
    refine ⟨?_, ?_⟩
    · intro n positive _
      exact lists.recent (by omega) counted
    · intro low high nonnegative upward narrow
      exact lists.range nonnegative upward narrow counted

end Queries

/-! ## The number of members -/

theorem Earlier.irrefl (member : Int × Bytes) : ¬ Earlier member member := by
  rintro (below | ⟨-, below⟩)
  · exact lt_irrefl _ below
  · exact kvDataCompare_lt_irrefl member.2 below

theorem nodup_of_ordered {members : List (Int × Bytes)}
    (ordered : members.Pairwise Earlier) : members.Nodup :=
  ordered.imp (fun earlier same => by
    subst same
    exact Earlier.irrefl _ earlier)

/-- There are at most as many members as calls. -/
theorem members_length_le {adds : List ((Int × Bytes) × Level)}
    {members : List (Int × Bytes)} (ordered : members.Pairwise Earlier)
    (added : ∀ member, member ∈ members ↔ Added adds member) :
    members.length ≤ adds.length := by
  have inside : members ⊆ adds.map Prod.fst := by
    intro member here
    obtain ⟨⟨level, add⟩, -⟩ := (added member).mp here
    exact List.mem_map_of_mem add
  have fewer :=
    (List.subperm_of_subset (nodup_of_ordered ordered) inside).length_le
  rwa [List.length_map] at fewer

/-- Both queries of a filled skip list are those of the sorted set of its
members exactly when an `int` counts them. -/
theorem zset_queries {adds : List ((Int × Bytes) × Level)}
    (stamped : ∀ add ∈ adds, 1 ≤ add.1.1 ∧ add.1.1 ≤ 10 ^ 15 - 1) :
    ∃ members : List (Int × Bytes),
      members.Pairwise Earlier ∧
      (∀ member, member ∈ members ↔ Added adds member) ∧
      (Queries (filled adds) members ↔ members.length < 2 ^ 31) := by
  have proper : ∀ add ∈ adds, Stamped add.1 := by
    intro add added
    have bounds := stamped add added
    exact ⟨by omega, by omega⟩
  obtain ⟨members, lists, added⟩ := filled_lists proper
  exact ⟨members, lists.ordered, added, lists.queries_iff⟩

/-- Two members of the same time and an earlier one. -/
def threeAdds : List ((Int × Bytes) × Level) :=
  [((9, ascii "b"), 3), ((9, ascii "a"), 0), ((5, ascii "c"), 1)]

/-- The three members are found in their order. -/
theorem zset_queries_three :
    ∃ members : List (Int × Bytes),
      members.Pairwise Earlier ∧
      (∀ member, member ∈ members ↔ Added threeAdds member) ∧
      Queries (filled threeAdds) members := by
  obtain ⟨members, ordered, added, exact⟩ := @zset_queries threeAdds
    (by decide)
  have few := members_length_le ordered added
  have three : threeAdds.length = 3 := rfl
  exact ⟨members, ordered, added, exact.mpr (by omega)⟩

/-! ## More members than an `int` counts -/

/-- The id `a` at the first timestamps. -/
def manyAdds (number : Nat) : List ((Int × Bytes) × Level) :=
  (List.range number).map
    (fun index : Nat => (((index : Int) + 1, ascii "a"), 0))

theorem added_many {number : Nat} {member : Int × Bytes} :
    Added (manyAdds number) member ↔
      ∃ index : Nat, index < number ∧
        ((index : Int) + 1, ascii "a") = member := by
  have accepted : Accepted ((0 : Int), ascii "a") := by decide
  constructor
  · rintro ⟨⟨level, add⟩, -⟩
    obtain ⟨index, inside, same⟩ := List.mem_map.mp add
    exact ⟨index, List.mem_range.mp inside, congrArg Prod.fst same⟩
  · rintro ⟨index, inside, rfl⟩
    exact ⟨⟨0, List.mem_map_of_mem (List.mem_range.mpr inside)⟩, accepted⟩

/-- Each call adds a member. -/
theorem filled_many {number : Nat} (small : number < 10 ^ 15) :
    ∃ members, Lists (filled (manyAdds number)) members ∧
      members.length = number := by
  have stamped : ∀ add ∈ manyAdds number, Stamped add.1 := by
    intro add added
    obtain ⟨index, inside, rfl⟩ := List.mem_map.mp added
    rw [List.mem_range] at inside
    exact ⟨by dsimp only; omega, by dsimp only; omega⟩
  obtain ⟨members, lists, added⟩ := filled_lists stamped
  have distinct : ((List.range number).map
      (fun index : Nat => ((index : Int) + 1, ascii "a"))).Nodup := by
    refine List.Nodup.map ?_ List.nodup_range
    intro first second same
    have stamps := congrArg Prod.fst same
    dsimp only at stamps
    omega
  have same := (List.perm_ext_iff_of_nodup (nodup_of_ordered lists.ordered)
    distinct).mpr (fun member => by
      rw [added, added_many, List.mem_map]
      simp only [List.mem_range])
  refine ⟨members, lists, ?_⟩
  rw [same.length_eq, List.length_map, List.length_range]

/-- Of `2 ^ 31` members not even the most recent one is found. -/
theorem zset_queries_overflow :
    kvsZsetRecent (filled (manyAdds (2 ^ 31))) 1 = none ∧
      ∀ members, ¬ Queries (filled (manyAdds (2 ^ 31))) members := by
  obtain ⟨members, lists, number⟩ :=
    @filled_many (2 ^ 31) (by decide)
  have recent : kvsZsetRecent (filled (manyAdds (2 ^ 31))) 1 = none := by
    rw [kvsZsetRecent, if_neg (by decide), lists.entries_length, number,
      Option.map_eq_none_iff, recentWindow_eq_none_iff (by decide)]
    decide
  refine ⟨recent, ?_⟩
  intro members queries
  rw [queries.recent 1 le_rfl (by decide)] at recent
  cases recent

end Kivo.Engine.TimeRange
