import Kivo.Clib.Slots
import Kivo.Engine.ArrayEngine
import Kivo.Engine.KeyMap

/-!
# Runs of the array engine

The array stands for a map with the capacity `KVS_ARRAY_SIZE`.  A run is any
sequence of calls on a fresh table.  As long as no empty key is set, the slots
hold distinct keys and every call answers as the bounded map does.  The copy of
an empty key is a null pointer, which the search passes over: such a key takes
a new slot each time it is set and is never found again.
-/

namespace Kivo.Engine.ArrayRuns

open Kivo.Clib.Memory
open Kivo.Clib.Slots
open Kivo.Clib.SortedList
open Kivo.Clib.Simulation
open Kivo.Engine.Data
open Kivo.Engine.KeyMap
open Kivo.Engine.ArrayEngine

/-! ## The invariant -/

/-- The entries of the slots. -/
def entries (inst : KvsArray) : List Entry :=
  inst.items.map ArrayItem.entry

/-- A table whose slots hold distinct keys. -/
structure ArrayOk (inst : KvsArray) : Prop where
  keyed : ∀ item ∈ inst.items, item.key ≠ none
  distinct : ((entries inst).map Entry.key).Nodup
  bounded : inst.items.length ≤ kvsArraySize

theorem arrayOk_create : ArrayOk kvsArrayCreate :=
  ⟨fun _ member => absurd member List.not_mem_nil, List.nodup_nil,
    Nat.zero_le _⟩

/-- The search compares keys, except for a null key. -/
theorem hasKey_iff {key : Bytes} {item : ArrayItem}
    (keyed : item.key ≠ none) :
    item.hasKey key = true ↔ item.entry.key = key := by
  obtain ⟨stored, here⟩ := Option.ne_none_iff_exists'.mp keyed
  rw [ArrayItem.hasKey, ArrayItem.entry, here]
  dsimp only
  rw [beq_iff_eq, kvDataCompare_eq_iff, Option.getD_some]

section Search

variable {inst : KvsArray} {key : Bytes}

/-- A key that is not found is in no slot. -/
theorem ArrayOk.absent (ok : ArrayOk inst)
    (missing : findKeyIndex inst key = none) :
    ∀ entry ∈ entries inst, entry.key ≠ key := by
  intro entry member same
  obtain ⟨item, inside, rfl⟩ := List.mem_map.mp member
  have miss := List.findIdx?_eq_none_iff.mp missing item inside
  rw [(hasKey_iff (ok.keyed item inside)).mpr same] at miss
  exact Bool.false_ne_true miss.symm

/-- A key that is found is in one slot. -/
theorem ArrayOk.found (ok : ArrayOk inst) {index : Nat}
    (found : findKeyIndex inst key = some index) :
    ∃ front item back, inst.items = front ++ item :: back ∧
      front.length = index ∧ item.entry.key = key ∧
      erase kvDataCompare Entry.key (entries inst) key =
        (front ++ back).map ArrayItem.entry := by
  obtain ⟨front, item, back, split, position, hit, _⟩ :=
    findIdx?_split found
  have same : item.entry.key = key :=
    (hasKey_iff (ok.keyed item (by rw [split]; simp))).mp hit
  refine ⟨front, item, back, split, position, same, ?_⟩
  have distinct := ok.distinct
  rw [entries, split, List.map_append, List.map_cons] at distinct ⊢
  rw [← same, erase_middle distinct, List.map_append]

/-- The search finds the entry of the key. -/
theorem arrayFind_contents (ok : ArrayOk inst) :
    (arrayFind inst key).map (fun stored => item stored.entry) =
      contents (entries inst) key := by
  rw [contents, entries, lookup_map, lookup, Option.map_map, arrayFind]
  congr 1
  apply List.find?_congr
  intro stored member
  rw [Bool.eq_iff_iff, hasKey_iff (ok.keyed stored member), beq_iff_eq,
    kvDataCompare_eq_iff]

/-- The search for an index finds what the search for an item finds. -/
theorem findKeyIndex_isSome (ok : ArrayOk inst) :
    (findKeyIndex inst key).isSome = (contents (entries inst) key).isSome := by
  rw [← arrayFind_contents ok, Option.isSome_map, arrayFind, findKeyIndex,
    List.findIdx?_isSome, List.isSome_find?]

end Search

/-! ## Calls on the table -/

section Calls

variable {inst : KvsArray} {key : Bytes}

/-- The slots of a table that holds one entry more or another one. -/
theorem ArrayOk.replace (ok : ArrayOk inst) {items : List ArrayItem}
    {entry : Entry} (keyed : ∀ item ∈ items, item.key ≠ none)
    (perm : (items.map ArrayItem.entry).Perm
      (entry :: erase kvDataCompare Entry.key (entries inst) entry.key))
    (bounded : items.length ≤ kvsArraySize) :
    ArrayOk { items := items } ∧
      contents (entries { items := items }) =
        (contents (entries inst)).set entry.key (item entry) := by
  have distinct : ((items.map ArrayItem.entry).map Entry.key).Nodup := by
    rw [(perm.map Entry.key).nodup_iff, List.map_cons, List.nodup_cons]
    refine ⟨?_, ok.distinct.sublist (List.filter_sublist.map _)⟩
    intro member
    obtain ⟨other, inside, same⟩ := List.mem_map.mp member
    have different := (List.mem_filter.mp inside).2
    rw [same, kvDataCompare_self] at different
    exact Bool.false_ne_true different
  refine ⟨⟨keyed, distinct, bounded⟩, ?_⟩
  rw [entries, contents_perm perm distinct, contents_cons_erase]

/-- A copy reads as what was copied. -/
theorem kvDataDup_getD (content : Bytes) :
    (kvDataDup content).getD [] = content := by
  rw [kvDataDup]
  split_ifs with empty
  · rw [List.length_eq_zero_iff.mp empty]
    rfl
  · rfl

/-- `kvs_array_set` sets a key that is not empty, or refuses it in a full
table. -/
theorem kvsArraySet_contents (ok : ArrayOk inst) (proper : key ≠ [])
    (enableTtl : Bool) (value : Bytes) (expireTime : Int) :
    ArrayOk (kvsArraySet inst key value expireTime).1 ∧
      (contents (entries (kvsArraySet inst key value expireTime).1),
        Answer.status (kvsArraySet inst key value expireTime).2) =
        (contents (entries inst)).boundedStep kvsArraySize enableTtl
          (.set key value expireTime) := by
  have copied : kvDataDup key = some key := by
    rw [kvDataDup, if_neg]
    simpa using proper
  have stored := kvDataDup_getD value
  have search := @findKeyIndex_isSome inst key ok
  rw [kvsArraySet, Contents.boundedStep]
  cases found : findKeyIndex inst key with
  | some index =>
      rw [found, Option.isSome_some] at search
      have present : ¬ (contents (entries inst) key = none ∧
          kvsArraySize ≤ (contents (entries inst)).size) := by
        rintro ⟨none, _⟩
        rw [none] at search
        exact Bool.false_ne_true search.symm
      obtain ⟨front, slot, back, split, rfl, same, rest⟩ := ok.found found
      dsimp only
      rw [if_neg present, split, modify_split]
      obtain ⟨after, entries⟩ := @ArrayOk.replace inst ok
        (front ++ { slot with
          value := kvDataDup value
          expireTime := expireTime } :: back)
        { key := key, value := value, expireTime := expireTime }
        (by
          intro item member
          rcases List.mem_append.mp member with inFront | inBack
          · exact ok.keyed item (by rw [split]; simp [inFront])
          · rcases List.mem_cons.mp inBack with rfl | inBack
            · exact ok.keyed slot (by rw [split]; simp)
            · exact ok.keyed item (by rw [split]; simp [inBack]))
        (by
          rw [rest, List.map_append, List.map_cons, List.map_append]
          have changed : ArrayItem.entry { slot with
              value := kvDataDup value
              expireTime := expireTime } =
              { key := key, value := value, expireTime := expireTime } := by
            rw [ArrayItem.entry, stored, ← same]
            rfl
          rw [changed]
          exact List.perm_middle)
        (by
          have bounded := ok.bounded
          rw [split] at bounded
          simpa using bounded)
      exact ⟨after, by rw [entries]; rfl⟩
  | none =>
      rw [found, Option.isSome_none] at search
      have missing : contents (entries inst) key = none :=
        Option.isNone_iff_eq_none.mp (by
          rw [← Option.not_isSome, ← search]
          rfl)
      have size : (contents (entries inst)).size = inst.items.length := by
        rw [contents_size ok.distinct, entries, List.length_map]
      dsimp only
      rw [missing, size]
      by_cases full : kvsArraySize ≤ inst.items.length
      · rw [if_pos full, if_pos ⟨rfl, full⟩]
        exact ⟨ok, rfl⟩
      · rw [if_neg full, if_neg (fun refused => full refused.2), copied]
        obtain ⟨after, entries⟩ := @ArrayOk.replace inst ok
          (inst.items ++ [{ key := some key
                            value := kvDataDup value
                            expireTime := expireTime }])
          { key := key, value := value, expireTime := expireTime }
          (by
            intro item member
            rcases List.mem_append.mp member with old | new
            · exact ok.keyed item old
            · rw [List.mem_singleton.mp new]
              exact Option.some_ne_none key)
          (by
            rw [erase_of_apart (ok.absent found), List.map_append,
              List.map_singleton, ArrayItem.entry, stored]
            exact List.perm_append_comm)
          (by
            rw [List.length_append, List.length_singleton]
            omega)
        exact ⟨after, by rw [entries]; rfl⟩

/-- Removing a slot moves at most the last item. -/
theorem removeSlot_perm (front : List ArrayItem) (slot : ArrayItem)
    (back : List ArrayItem) :
    (removeSlot (front ++ slot :: back) front.length).Perm
      (front ++ back) := by
  rcases List.eq_nil_or_concat' back with rfl | ⟨middle, last, rfl⟩
  · have end_eq : (front ++ [slot]).getLast? = some slot := by simp
    rw [removeSlot, end_eq]
    dsimp only
    rw [set_split, List.dropLast_concat, List.append_nil]
  · have end_eq : (front ++ slot :: (middle ++ [last])).getLast? =
        some last := by
      rw [show front ++ slot :: (middle ++ [last]) =
        (front ++ slot :: middle) ++ [last] by simp]
      exact List.getLast?_concat
    have parts : front ++ last :: (middle ++ [last]) =
        (front ++ last :: middle) ++ [last] := by
      simp
    rw [removeSlot, end_eq]
    dsimp only
    rw [set_split, parts, List.dropLast_concat]
    refine List.Perm.append_left _ ?_
    exact (List.perm_append_singleton last middle).symm

/-- `kvs_array_del` erases the key. -/
theorem kvsArrayDel_contents (ok : ArrayOk inst) (key : Bytes) :
    ArrayOk (kvsArrayDel inst key).1 ∧
      contents (entries (kvsArrayDel inst key).1) =
        (contents (entries inst)).erase key ∧
      (kvsArrayDel inst key).2 =
        if (contents (entries inst) key).isSome then 0 else 1 := by
  rw [← findKeyIndex_isSome ok, ← contents_erase, kvsArrayDel]
  cases found : findKeyIndex inst key with
  | none =>
      refine ⟨ok, ?_, rfl⟩
      rw [erase_of_apart (ok.absent found)]
  | some index =>
      obtain ⟨front, slot, back, split, rfl, same, rest⟩ := ok.found found
      have perm := removeSlot_perm front slot back
      have inside : (front ++ back).Sublist inst.items := by
        rw [split]
        exact (List.Sublist.refl _).append (List.sublist_cons_self _ _)
      have distinct : (((removeSlot (front ++ slot :: back)
          front.length).map ArrayItem.entry).map Entry.key).Nodup := by
        rw [((perm.map ArrayItem.entry).map Entry.key).nodup_iff]
        exact ok.distinct.sublist ((inside.map _).map _)
      dsimp only
      rw [split]
      refine ⟨⟨?_, distinct, ?_⟩, ?_, rfl⟩
      · intro item member
        exact ok.keyed item (inside.subset (perm.mem_iff.mp member))
      · rw [perm.length_eq]
        exact inside.length_le.trans ok.bounded
      · rw [rest]
        exact contents_perm (perm.map ArrayItem.entry) distinct

/-- `kvs_array_get` reads the entry of the key, or erases it when its time has
passed. -/
theorem kvsArrayGet_contents (ok : ArrayOk inst) (enableTtl : Bool)
    (now : Int) (key : Bytes) :
    ArrayOk (kvsArrayGet enableTtl now inst key).1 ∧
      contents (entries (kvsArrayGet enableTtl now inst key).1) =
        (contents (entries inst)).purge enableTtl now key ∧
      (kvsArrayGet enableTtl now inst key).2 =
        ((contents (entries inst)).purge enableTtl now key key).map
          Item.value := by
  have search := @arrayFind_contents inst key ok
  rw [kvsArrayGet, Contents.purge, ← search]
  cases found : arrayFind inst key with
  | none =>
      rw [found] at search
      refine ⟨ok, rfl, ?_⟩
      dsimp only [Option.map_none]
      rw [← search]
      rfl
  | some slot =>
      rw [found] at search
      obtain ⟨after, erased, _⟩ := kvsArrayDel_contents ok key
      have time : (item slot.entry).expireTime = slot.expireTime := rfl
      simp only [Option.map_some, time]
      split_ifs with late
      · refine ⟨after, erased, ?_⟩
        rw [Contents.erase, if_pos rfl]
        rfl
      · rw [← search]
        exact ⟨ok, rfl, rfl⟩

/-- `kvs_array_del_if_expired` erases the key when its slot carries the
expected time. -/
theorem kvsArrayDelIfExpired_contents (ok : ArrayOk inst) (key : Bytes)
    (expectedExpire : Int) :
    ArrayOk (kvsArrayDelIfExpired inst key expectedExpire).1 ∧
      (contents (entries (kvsArrayDelIfExpired inst key expectedExpire).1),
        (kvsArrayDelIfExpired inst key expectedExpire).2) =
        if (contents (entries inst) key).map Item.expireTime =
            some expectedExpire then
          ((contents (entries inst)).erase key, true)
        else (contents (entries inst), false) := by
  rw [kvsArrayDelIfExpired, ← arrayFind_contents ok]
  cases found : arrayFind inst key with
  | none => exact ⟨ok, rfl⟩
  | some slot =>
      obtain ⟨after, erased, _⟩ := kvsArrayDel_contents ok key
      have time : (item slot.entry).expireTime = slot.expireTime := rfl
      simp only [Option.map_some, time, Option.some.injEq]
      by_cases expired : slot.expireTime = expectedExpire
      · rw [if_neg (not_not.mpr expired), if_pos expired]
        exact ⟨after, by rw [erased]⟩
      · rw [if_pos expired, if_neg expired]
        exact ⟨ok, rfl⟩

end Calls

/-! ## Runs -/

/-- A call of the engine. -/
def arrayStep (enableTtl : Bool) (inst : KvsArray) :
    Operation → KvsArray × Answer
  | .set key value expireTime =>
      let result := kvsArraySet inst key value expireTime
      (result.1, .status result.2)
  | .mod key value expireTime =>
      let result := kvsArrayMod inst key value expireTime
      (result.1, .status result.2)
  | .get now key =>
      let result := kvsArrayGet enableTtl now inst key
      (result.1, .value result.2)
  | .exist now key =>
      let result := kvsArrayExist enableTtl now inst key
      (result.1, .status result.2)
  | .del key =>
      let result := kvsArrayDel inst key
      (result.1, .status result.2)
  | .delIfExpired key expectedExpire =>
      let result := kvsArrayDelIfExpired inst key expectedExpire
      (result.1, .status (if result.2 then 1 else 0))

/-- The call does not set an empty key. -/
def SetsProperKey : Operation → Prop
  | .set key _ _ => key ≠ []
  | .mod key _ _ => key ≠ []
  | _ => True

/-- The table that stands for a map. -/
def Represents (inst : KvsArray) (map : Contents) : Prop :=
  ArrayOk inst ∧ contents (entries inst) = map

theorem arrayStep_represents (enableTtl : Bool) {inst : KvsArray}
    {map : Contents} (represents : Represents inst map)
    (operation : Operation) (proper : SetsProperKey operation) :
    Represents (arrayStep enableTtl inst operation).1
        (map.boundedStep kvsArraySize enableTtl operation).1 ∧
      (arrayStep enableTtl inst operation).2 =
        (map.boundedStep kvsArraySize enableTtl operation).2 := by
  obtain ⟨ok, rfl⟩ := represents
  cases operation with
  | set key value expireTime =>
      obtain ⟨after, result⟩ :=
        kvsArraySet_contents ok proper enableTtl value expireTime
      rw [← result]
      exact ⟨⟨after, rfl⟩, rfl⟩
  | mod key value expireTime =>
      obtain ⟨after, result⟩ :=
        kvsArraySet_contents ok proper enableTtl value expireTime
      have same : (contents (entries inst)).boundedStep kvsArraySize
          enableTtl (.mod key value expireTime) =
          (contents (entries inst)).boundedStep kvsArraySize enableTtl
            (.set key value expireTime) := rfl
      rw [same, ← result]
      exact ⟨⟨after, rfl⟩, rfl⟩
  | get now key =>
      obtain ⟨after, stored, read⟩ :=
        kvsArrayGet_contents ok enableTtl now key
      exact ⟨⟨after, stored⟩, congrArg Answer.value read⟩
  | exist now key =>
      obtain ⟨after, stored, read⟩ :=
        kvsArrayGet_contents ok enableTtl now key
      refine ⟨⟨after, stored⟩, ?_⟩
      simp only [arrayStep, kvsArrayExist, read, Contents.boundedStep,
        Contents.step]
      cases (contents (entries inst)).purge enableTtl now key key <;> rfl
  | del key =>
      obtain ⟨after, stored, status⟩ := kvsArrayDel_contents ok key
      exact ⟨⟨after, stored⟩, congrArg Answer.status status⟩
  | delIfExpired key expectedExpire =>
      obtain ⟨after, result⟩ :=
        kvsArrayDelIfExpired_contents ok key expectedExpire
      simp only [arrayStep, Contents.boundedStep, Contents.step]
      split_ifs at result ⊢ with here <;> simp_all [Represents]

/--
A run that sets no empty key keeps the keys of the slots distinct, answers as
the map of capacity `KVS_ARRAY_SIZE` does and ends in a table with the contents
of that map.
-/
theorem arrayRun_refines_map (enableTtl : Bool)
    (operations : List Operation)
    (proper : ∀ operation ∈ operations, SetsProperKey operation) :
    (((run (arrayStep enableTtl) kvsArrayCreate operations).1.items.map
        ArrayItem.key).Nodup ∧
      (run (arrayStep enableTtl) kvsArrayCreate operations).1.items.length ≤
        kvsArraySize) ∧
      (run (arrayStep enableTtl) kvsArrayCreate operations).2 =
        (run (Contents.boundedStep kvsArraySize enableTtl) Contents.empty
          operations).2 ∧
      contents
          (entries (run (arrayStep enableTtl) kvsArrayCreate operations).1) =
        (run (Contents.boundedStep kvsArraySize enableTtl) Contents.empty
          operations).1 := by
  obtain ⟨⟨ok, stored⟩, answers⟩ :=
    @run_simulation _ _ _ _ (arrayStep enableTtl)
      (Contents.boundedStep kvsArraySize enableTtl)
      (fun _ operation => SetsProperKey operation) Represents
      (fun _ _ operation represents fits =>
        arrayStep_represents enableTtl represents operation fits)
      kvsArrayCreate Contents.empty ⟨arrayOk_create, rfl⟩ operations
      (along_of_forall proper _)
  refine ⟨⟨?_, ok.bounded⟩, answers, stored⟩
  have distinct := ok.distinct
  rw [entries, List.map_map] at distinct
  have factored : (Entry.key ∘ ArrayItem.entry) =
      (fun key : Option Bytes => key.getD []) ∘ ArrayItem.key := rfl
  rw [factored, ← List.map_map] at distinct
  exact distinct.of_map _

/-- A key is set and read back. -/
theorem arrayRun_refines_map_set :
    (∀ operation ∈ [Operation.set [107] [118] 0, .get 0 [107]],
        SetsProperKey operation) ∧
      (run (arrayStep false) kvsArrayCreate
          [.set [107] [118] 0, .get 0 [107]]).2 =
        (run (Contents.boundedStep kvsArraySize false) Contents.empty
          [.set [107] [118] 0, .get 0 [107]]).2 := by
  have proper : ∀ operation ∈ [Operation.set [107] [118] 0, .get 0 [107]],
      SetsProperKey operation := by
    intro operation member
    rcases List.mem_cons.mp member with rfl | member
    · exact List.cons_ne_nil _ _
    · rw [List.mem_singleton.mp member]
      trivial
  exact ⟨proper, (arrayRun_refines_map false _ proper).2.1⟩

/-- An empty key is set and not read back. -/
theorem arrayRun_empty_key :
    (run (arrayStep false) kvsArrayCreate [.set [] [118] 0, .get 0 []]).2 ≠
      (run (Contents.boundedStep kvsArraySize false) Contents.empty
        [.set [] [118] 0, .get 0 []]).2 := by
  have size : Contents.empty.size = 0 :=
    @contents_size [] List.nodup_nil
  have space : ¬ (Contents.empty [] = none ∧
      kvsArraySize ≤ Contents.empty.size) := by
    rw [size]
    exact fun full => absurd full.2 (by decide)
  have taken : Contents.empty.boundedStep kvsArraySize false
      (.set [] [118] 0) =
      Contents.empty.step false (.set [] [118] 0) :=
    if_neg space
  rw [show (run (arrayStep false) kvsArrayCreate
    [.set [] [118] 0, .get 0 []]).2 = [.status 0, .value none] by decide,
    run, taken]
  exact fun same => absurd (congrArg List.getLast? same) (by decide)

/-! ## Slots with a null key -/

/-- The table without the slots whose key is a null pointer. -/
def keyedPart (inst : KvsArray) : KvsArray :=
  { items := inst.items.filter (fun item => item.key.isSome) }

/-- What every run keeps, empty keys or not. -/
structure ArraySlots (inst : KvsArray) : Prop where
  proper : ∀ item ∈ inst.items, item.key ≠ some []
  distinct : (inst.items.filterMap ArrayItem.key).Nodup
  bounded : inst.items.length ≤ kvsArraySize

section Slots

variable {inst : KvsArray} {key : Bytes}

theorem arraySlots_create : ArraySlots kvsArrayCreate :=
  ⟨fun _ member => absurd member List.not_mem_nil, List.nodup_nil,
    Nat.zero_le _⟩

theorem ArraySlots.of_perm (slots : ArraySlots inst)
    {items rest : List ArrayItem} (perm : items.Perm rest)
    (inside : rest.Sublist inst.items) :
    ArraySlots { items := items } := by
  refine ⟨?_, ?_, ?_⟩
  · intro item member
    exact slots.proper item (inside.subset (perm.mem_iff.mp member))
  · dsimp only
    rw [(perm.filterMap ArrayItem.key).nodup_iff]
    exact slots.distinct.sublist (inside.filterMap ArrayItem.key)
  · dsimp only
    rw [perm.length_eq]
    exact inside.length_le.trans slots.bounded

theorem kvDataDup_ne_some_nil (content : Bytes) :
    kvDataDup content ≠ some [] := by
  rw [kvDataDup]
  split_ifs with empty
  · exact fun same => by cases same
  · intro same
    rw [Option.some.inj same] at empty
    exact empty rfl

/-- A key that is not found is the key of no slot. -/
theorem findKeyIndex_notMem (missing : findKeyIndex inst key = none) :
    key ∉ inst.items.filterMap ArrayItem.key := by
  intro member
  obtain ⟨item, inside, same⟩ := List.mem_filterMap.mp member
  have miss := List.findIdx?_eq_none_iff.mp missing item inside
  rw [ArrayItem.hasKey, same] at miss
  simp at miss

theorem ArraySlots.set (slots : ArraySlots inst) (key value : Bytes)
    (expireTime : Int) :
    ArraySlots (kvsArraySet inst key value expireTime).1 := by
  rw [kvsArraySet]
  cases found : findKeyIndex inst key with
  | some index =>
      obtain ⟨front, item, back, split, rfl, _, _⟩ := findIdx?_split found
      obtain ⟨proper, distinct, bounded⟩ := slots
      dsimp only
      rw [split] at proper distinct bounded ⊢
      rw [modify_split]
      refine ⟨?_, ?_, ?_⟩
      · intro other member
        rcases List.mem_append.mp member with before | rest
        · exact proper other (List.mem_append_left _ before)
        · rcases List.mem_cons.mp rest with rfl | after
          · exact proper item (by simp)
          · exact proper other (by simp [after])
      · simpa [List.filterMap_append, List.filterMap_cons] using distinct
      · simpa using bounded
  | none =>
      dsimp only
      split_ifs with full
      · exact slots
      · refine ⟨?_, ?_, ?_⟩
        · intro item member
          rcases List.mem_append.mp member with old | new
          · exact slots.proper item old
          · rw [List.mem_singleton.mp new]
            exact kvDataDup_ne_some_nil key
        · dsimp only
          rw [List.filterMap_append, List.nodup_append]
          refine ⟨slots.distinct, ?_, ?_⟩
          · cases kvDataDup key <;> simp
          · intro stored old other new same
            have copy : kvDataDup key = some other := by
              simpa using new
            rw [kvDataDup] at copy
            split_ifs at copy
            cases copy
            rw [same] at old
            exact findKeyIndex_notMem found old
        · dsimp only
          rw [List.length_append, List.length_singleton]
          omega

theorem ArraySlots.del (slots : ArraySlots inst) (key : Bytes) :
    ArraySlots (kvsArrayDel inst key).1 := by
  rw [kvsArrayDel]
  cases found : findKeyIndex inst key with
  | none => exact slots
  | some index =>
      obtain ⟨front, item, back, split, rfl, _, _⟩ := findIdx?_split found
      dsimp only
      rw [split]
      refine slots.of_perm (removeSlot_perm front item back) ?_
      rw [split]
      exact (List.Sublist.refl _).append (List.sublist_cons_self _ _)

theorem ArraySlots.get (slots : ArraySlots inst) (enableTtl : Bool)
    (now : Int) (key : Bytes) :
    ArraySlots (kvsArrayGet enableTtl now inst key).1 := by
  rw [kvsArrayGet]
  cases arrayFind inst key with
  | none => exact slots
  | some item =>
      dsimp only
      split_ifs
      · exact slots.del key
      · exact slots

theorem ArraySlots.step (slots : ArraySlots inst) (enableTtl : Bool)
    (operation : Operation) :
    ArraySlots (arrayStep enableTtl inst operation).1 := by
  cases operation with
  | set key value expireTime => exact slots.set key value expireTime
  | mod key value expireTime => exact slots.set key value expireTime
  | get now key => exact slots.get enableTtl now key
  | exist now key => exact slots.get enableTtl now key
  | del key => exact slots.del key
  | delIfExpired key expectedExpire =>
      rw [arrayStep, kvsArrayDelIfExpired]
      cases arrayFind inst key with
      | none => exact slots
      | some item =>
          dsimp only
          split_ifs
          · exact slots
          · exact slots.del key

/-- Every run keeps the keys that are there distinct. -/
theorem arrayRun_slots (enableTtl : Bool) (operations : List Operation) :
    ArraySlots (run (arrayStep enableTtl) kvsArrayCreate operations).1 := by
  refine @run_invariant _ _ _ (arrayStep enableTtl) (fun _ _ => True)
    ArraySlots ?_ _ arraySlots_create _ (along_of_forall (fun _ _ => trivial) _)
  intro inst operation slots _
  exact slots.step enableTtl operation

/-- The slots with a key form a table with distinct keys. -/
theorem ArraySlots.keyedPart_ok (slots : ArraySlots inst) :
    ArrayOk (keyedPart inst) := by
  have keys : ∀ items : List ArrayItem,
      ((items.filter (fun item => item.key.isSome)).map
        ArrayItem.entry).map Entry.key = items.filterMap ArrayItem.key := by
    intro items
    induction items with
    | nil => rfl
    | cons item rest induction =>
        cases here : item.key with
        | none => simpa [List.filterMap_cons, here] using induction
        | some stored =>
            simpa [List.filterMap_cons, here, ArrayItem.entry] using induction
  refine ⟨?_, ?_, ?_⟩
  · intro item member
    exact Option.isSome_iff_ne_none.mp (by simpa using (List.mem_filter.mp member).2)
  · rw [entries, keyedPart, keys]
    exact slots.distinct
  · exact (List.length_filter_le _ _).trans slots.bounded

/-- The search does not see the slots with a null key. -/
theorem arrayFind_keyedPart (inst : KvsArray) (key : Bytes) :
    arrayFind inst key = arrayFind (keyedPart inst) key := by
  rw [arrayFind, arrayFind, keyedPart, List.find?_filter]
  apply List.find?_congr
  intro item _
  rw [ArrayItem.hasKey]
  cases item.key with
  | none => rfl
  | some stored => simp only [Option.isSome_some, true_and, Bool.decide_eq_true]

/-- With TTL the walk visits the slots with a key that are not expired. -/
theorem kvsArrayForeach_eq (now : Int) (inst : KvsArray) :
    kvsArrayForeach true now inst =
      unexpired true now (entries (keyedPart inst)) := by
  rw [kvsArrayForeach, if_pos rfl, unexpired, entries, keyedPart,
    List.filter_map, List.filter_filter]
  congr 1
  apply List.filter_congr
  intro item _
  rw [Bool.eq_iff_iff, Bool.and_eq_true, decide_eq_true_iff, and_comm]
  refine and_congr_left' ?_
  simp only [Function.comp_apply, ArrayItem.entry, Expired, true_and]
  exact (decide_eq_true_iff).symm

/-! ### Calls on the slots with a key -/

theorem keyedPart_append (front back : List ArrayItem) :
    keyedPart { items := front ++ back } =
      { items := (keyedPart { items := front }).items ++
          (keyedPart { items := back }).items } := by
  simp only [keyedPart, List.filter_append]

theorem keyedPart_cons {item : ArrayItem} (keyed : item.key ≠ none)
    (back : List ArrayItem) :
    keyedPart { items := item :: back } =
      { items := item :: (keyedPart { items := back }).items } := by
  simp only [keyedPart, List.filter_cons,
    Option.isSome_iff_ne_none.mpr keyed, if_true]

/-- The map of the slots with a key, as the search sees it. -/
theorem ArraySlots.arrayFind_contents (slots : ArraySlots inst)
    (key : Bytes) :
    (arrayFind inst key).map (fun stored => item stored.entry) =
      contents (entries (keyedPart inst)) key := by
  rw [arrayFind_keyedPart]
  exact ArrayRuns.arrayFind_contents slots.keyedPart_ok

theorem ArraySlots.findKeyIndex_isSome (slots : ArraySlots inst)
    (key : Bytes) :
    (findKeyIndex inst key).isSome =
      (contents (entries (keyedPart inst)) key).isSome := by
  rw [← slots.arrayFind_contents, Option.isSome_map, arrayFind, findKeyIndex,
    List.findIdx?_isSome, List.isSome_find?]

/-- A key that was not found is the key of no slot. -/
theorem ArraySlots.absent (slots : ArraySlots inst)
    (missing : findKeyIndex inst key = none) :
    ∀ entry ∈ entries (keyedPart inst), entry.key ≠ key := by
  refine slots.keyedPart_ok.absent ?_
  rw [findKeyIndex, List.findIdx?_eq_none_iff] at missing ⊢
  intro item member
  exact missing item (List.mem_filter.mp member).1

/-- A key that was found splits the slots with a key. -/
theorem ArraySlots.found (slots : ArraySlots inst) {index : Nat}
    (found : findKeyIndex inst key = some index) :
    ∃ front item back, inst.items = front ++ item :: back ∧
      front.length = index ∧ item.key = some key ∧
      erase kvDataCompare Entry.key (entries (keyedPart inst)) key =
        entries (keyedPart { items := front ++ back }) := by
  obtain ⟨front, item, back, split, position, hit, _⟩ :=
    findIdx?_split found
  have keyed : item.key = some key := by
    rw [ArrayItem.hasKey] at hit
    cases here : item.key with
    | none =>
        rw [here] at hit
        cases hit
    | some stored =>
        rw [here] at hit
        rw [kvDataCompare_eq_iff.mp (beq_iff_eq.mp hit)]
  have own : item.entry.key = key := by
    rw [ArrayItem.entry, keyed]
    rfl
  have parts : entries (keyedPart inst) =
      entries (keyedPart { items := front }) ++
        item.entry :: entries (keyedPart { items := back }) := by
    rw [show inst = { items := front ++ item :: back } by rw [← split],
      keyedPart_append, keyedPart_cons (by rw [keyed]; nofun)]
    simp only [entries, List.map_append, List.map_cons]
  refine ⟨front, item, back, split, position, keyed, ?_⟩
  have distinct := slots.keyedPart_ok.distinct
  rw [parts] at distinct ⊢
  rw [← own, erase_middle distinct, keyedPart_append]
  simp only [entries, List.map_append]

/-- `kvs_array_set` refuses a new key in a full table. -/
theorem ArraySlots.set_full (slots : ArraySlots inst)
    (missing : contents (entries (keyedPart inst)) key = none)
    (full : kvsArraySize ≤ inst.items.length) (value : Bytes)
    (expireTime : Int) :
    kvsArraySet inst key value expireTime = (inst, -1) := by
  have absent : findKeyIndex inst key = none := by
    rw [← Option.isNone_iff_eq_none, ← Option.not_isSome,
      slots.findKeyIndex_isSome, missing]
    rfl
  rw [kvsArraySet, absent]
  exact if_pos full

/-- No search finds the empty key. -/
theorem ArraySlots.findKeyIndex_empty (slots : ArraySlots inst) :
    findKeyIndex inst [] = none := by
  rw [findKeyIndex, List.findIdx?_eq_none_iff]
  intro item member
  rw [ArrayItem.hasKey]
  cases here : item.key with
  | none => rfl
  | some stored =>
      dsimp only
      rw [beq_eq_false_iff_ne, Ne, kvDataCompare_eq_iff]
      rintro rfl
      exact slots.proper item member here

/-- `kvs_array_set` stores an empty key without a key. -/
theorem ArraySlots.set_empty (slots : ArraySlots inst)
    (room : inst.items.length < kvsArraySize) (value : Bytes)
    (expireTime : Int) :
    keyedPart (kvsArraySet inst [] value expireTime).1 = keyedPart inst ∧
      (kvsArraySet inst [] value expireTime).2 = 0 := by
  have absent := slots.findKeyIndex_empty
  rw [kvsArraySet, absent]
  dsimp only
  rw [if_neg (Nat.not_le_of_lt room), keyedPart_append]
  exact ⟨congrArg KvsArray.mk (List.append_nil _), rfl⟩

/-- `kvs_array_set` sets a key that is not empty. -/
theorem ArraySlots.set_contents (slots : ArraySlots inst) (proper : key ≠ [])
    (room : contents (entries (keyedPart inst)) key ≠ none ∨
      inst.items.length < kvsArraySize) (value : Bytes) (expireTime : Int) :
    contents (entries (keyedPart (kvsArraySet inst key value expireTime).1)) =
        (contents (entries (keyedPart inst))).set key
          { value := value, expireTime := expireTime } ∧
      (kvsArraySet inst key value expireTime).2 = 0 := by
  have copied : kvDataDup key = some key := by
    rw [kvDataDup, if_neg]
    simpa using proper
  have after := (slots.set key value expireTime).keyedPart_ok
  have search := slots.findKeyIndex_isSome key
  cases found : findKeyIndex inst key with
  | some index =>
      obtain ⟨front, slot, back, split, rfl, keyed, rest⟩ := slots.found found
      rw [kvsArraySet, found] at after ⊢
      dsimp only at after ⊢
      refine ⟨?_, rfl⟩
      rw [split, modify_split] at after ⊢
      refine (@ArrayOk.replace (keyedPart inst) slots.keyedPart_ok _
        { key := key, value := value, expireTime := expireTime } after.keyed
        ?_ after.bounded).2
      rw [rest, keyedPart_append, keyedPart_append, keyedPart_cons]
      · rw [entries, List.map_append, List.map_cons, List.map_append]
        have changed : ArrayItem.entry { slot with
            value := kvDataDup value
            expireTime := expireTime } =
            { key := key, value := value, expireTime := expireTime } := by
          rw [ArrayItem.entry, kvDataDup_getD, keyed]
          rfl
        rw [changed]
        exact List.perm_middle
      · rw [keyed]
        nofun
  | none =>
      rw [found, Option.isSome_none] at search
      have missing : contents (entries (keyedPart inst)) key = none :=
        Option.isNone_iff_eq_none.mp (by
          rw [← Option.not_isSome, ← search]
          rfl)
      have space := room.resolve_left (fun present => present missing)
      rw [kvsArraySet, found] at after ⊢
      dsimp only at after ⊢
      rw [if_neg (Nat.not_le_of_lt space), copied] at after ⊢
      refine ⟨?_, rfl⟩
      refine (@ArrayOk.replace (keyedPart inst) slots.keyedPart_ok _
        { key := key, value := value, expireTime := expireTime } after.keyed
        ?_ after.bounded).2
      rw [erase_of_apart (slots.absent found), keyedPart_append,
        keyedPart_cons (Option.some_ne_none key), List.map_append, List.map_cons,
        ArrayItem.entry, kvDataDup_getD]
      exact List.perm_append_comm

/-- `kvs_array_del` erases the key. -/
theorem ArraySlots.del_contents (slots : ArraySlots inst) (key : Bytes) :
    contents (entries (keyedPart (kvsArrayDel inst key).1)) =
        (contents (entries (keyedPart inst))).erase key ∧
      (kvsArrayDel inst key).2 =
        if (contents (entries (keyedPart inst)) key).isSome then 0 else 1 := by
  have after := (slots.del key).keyedPart_ok
  rw [← slots.findKeyIndex_isSome, ← contents_erase]
  rw [kvsArrayDel] at after ⊢
  cases found : findKeyIndex inst key with
  | none =>
      refine ⟨?_, rfl⟩
      rw [erase_of_apart (slots.absent found)]
  | some index =>
      obtain ⟨front, slot, back, split, rfl, keyed, rest⟩ := slots.found found
      rw [found] at after
      dsimp only at after ⊢
      refine ⟨?_, rfl⟩
      rw [rest]
      rw [split] at after ⊢
      refine contents_perm ?_ after.distinct
      exact ((removeSlot_perm front slot back).filter _).map _

/-- `kvs_array_get` reads the entry of the key, or erases it when its time has
passed. -/
theorem ArraySlots.get_contents (slots : ArraySlots inst) (enableTtl : Bool)
    (now : Int) (key : Bytes) :
    contents (entries (keyedPart (kvsArrayGet enableTtl now inst key).1)) =
        (contents (entries (keyedPart inst))).purge enableTtl now key ∧
      (kvsArrayGet enableTtl now inst key).2 =
        ((contents (entries (keyedPart inst))).purge enableTtl now key
          key).map Item.value := by
  have search := slots.arrayFind_contents key
  rw [kvsArrayGet, Contents.purge, ← search]
  cases found : arrayFind inst key with
  | none =>
      rw [found] at search
      refine ⟨rfl, ?_⟩
      dsimp only [Option.map_none]
      rw [← search]
      rfl
  | some slot =>
      rw [found] at search
      have erased := (slots.del_contents key).1
      have time : (item slot.entry).expireTime = slot.expireTime := rfl
      simp only [Option.map_some, time]
      split_ifs with late
      · refine ⟨erased, ?_⟩
        rw [Contents.erase, if_pos rfl]
        rfl
      · rw [← search]
        exact ⟨rfl, rfl⟩

/-- `kvs_array_del_if_expired` erases the key when its slot carries the
expected time. -/
theorem ArraySlots.delIfExpired_contents (slots : ArraySlots inst)
    (key : Bytes) (expectedExpire : Int) :
    (contents
        (entries (keyedPart (kvsArrayDelIfExpired inst key
          expectedExpire).1)),
      (kvsArrayDelIfExpired inst key expectedExpire).2) =
      if (contents (entries (keyedPart inst)) key).map Item.expireTime =
          some expectedExpire then
        ((contents (entries (keyedPart inst))).erase key, true)
      else (contents (entries (keyedPart inst)), false) := by
  rw [kvsArrayDelIfExpired, ← slots.arrayFind_contents]
  cases found : arrayFind inst key with
  | none => rfl
  | some slot =>
      have erased := (slots.del_contents key).1
      have time : (item slot.entry).expireTime = slot.expireTime := rfl
      simp only [Option.map_some, time, Option.some.injEq]
      by_cases expired : slot.expireTime = expectedExpire
      · rw [if_neg (not_not.mpr expired), if_pos expired]
        exact congrArg (·, true) erased
      · rw [if_pos expired, if_neg expired]

/-! ## The number of slots with a null key -/

/-- The slots that no search finds. -/
def blanks (inst : KvsArray) : Nat :=
  inst.items.countP (fun item => item.key.isNone)

/-- A slot is found by its key, or by none. -/
theorem ArraySlots.length_eq (slots : ArraySlots inst) :
    inst.items.length =
      (contents (entries (keyedPart inst))).size + blanks inst := by
  rw [contents_size slots.keyedPart_ok.distinct, entries, List.length_map,
    keyedPart, blanks, List.length_eq_countP_add_countP
      (fun item => item.key.isSome), List.countP_eq_length_filter]
  congr 1
  refine List.countP_congr ?_
  intro item _
  cases item.key <;> simp

theorem ArraySlots.blanks_set (slots : ArraySlots inst) (proper : key ≠ [])
    (value : Bytes) (expireTime : Int) :
    blanks (kvsArraySet inst key value expireTime).1 = blanks inst := by
  have copied : kvDataDup key = some key := by
    rw [kvDataDup, if_neg]
    simpa using proper
  rw [kvsArraySet]
  cases found : findKeyIndex inst key with
  | some index =>
      obtain ⟨front, slot, back, split, rfl, keyed, -⟩ := slots.found found
      dsimp only
      rw [blanks, blanks, split, modify_split, List.countP_append,
        List.countP_append, List.countP_cons, List.countP_cons]
  | none =>
      dsimp only
      split_ifs
      · rfl
      · rw [blanks, blanks, List.countP_append, copied]
        rfl

theorem ArraySlots.blanks_set_empty (slots : ArraySlots inst)
    (room : inst.items.length < kvsArraySize) (value : Bytes)
    (expireTime : Int) :
    blanks (kvsArraySet inst [] value expireTime).1 = blanks inst + 1 := by
  rw [kvsArraySet, slots.findKeyIndex_empty]
  dsimp only
  rw [if_neg (Nat.not_le_of_lt room), blanks, List.countP_append]
  rfl

theorem ArraySlots.blanks_del (slots : ArraySlots inst) (key : Bytes) :
    blanks (kvsArrayDel inst key).1 = blanks inst := by
  rw [kvsArrayDel]
  cases found : findKeyIndex inst key with
  | none => rfl
  | some index =>
      obtain ⟨front, slot, back, split, rfl, keyed, -⟩ := slots.found found
      dsimp only
      rw [blanks, blanks, split,
        (removeSlot_perm front slot back).countP_eq, List.countP_append,
        List.countP_append, List.countP_cons_of_neg]
      rw [keyed]
      exact Bool.false_ne_true

theorem ArraySlots.blanks_get (slots : ArraySlots inst) (enableTtl : Bool)
    (now : Int) (key : Bytes) :
    blanks (kvsArrayGet enableTtl now inst key).1 = blanks inst := by
  rw [kvsArrayGet]
  cases arrayFind inst key with
  | none => rfl
  | some slot =>
      dsimp only
      split_ifs
      · exact slots.blanks_del key
      · rfl

/-- No call on a proper key adds or removes a slot with a null key. -/
theorem ArraySlots.blanks_step (slots : ArraySlots inst) (enableTtl : Bool)
    (operation : Operation) (proper : SetsProperKey operation) :
    blanks (arrayStep enableTtl inst operation).1 = blanks inst := by
  cases operation with
  | set key value expireTime => exact slots.blanks_set proper value expireTime
  | mod key value expireTime => exact slots.blanks_set proper value expireTime
  | get now key => exact slots.blanks_get enableTtl now key
  | exist now key => exact slots.blanks_get enableTtl now key
  | del key => exact slots.blanks_del key
  | delIfExpired key expectedExpire =>
      simp only [arrayStep, kvsArrayDelIfExpired]
      cases arrayFind inst key with
      | none => rfl
      | some slot =>
          dsimp only
          split_ifs
          · rfl
          · exact slots.blanks_del key

end Slots

end Kivo.Engine.ArrayRuns
