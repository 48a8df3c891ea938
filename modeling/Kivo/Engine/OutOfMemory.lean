import Kivo.Engine.Maps

/-!
# Storing without memory

The storing calls allocate as they go, and every `kvs_malloc` may fail.  A call
that returns an error leaves the map of its engine alone unless it has already
given up what the key held: the array frees the old value before it copies the
new one, and the other engines unlink the old node before they create the node
of a longer value.
-/

namespace Kivo.Engine.OutOfMemory

open Kivo.Clib.Memory
open Kivo.Clib.SortedList
open Kivo.Clib.Slots
open Kivo.Engine.Data
open Kivo.Engine.KeyMap
open Kivo.Engine.ArrayEngine
open Kivo.Engine.HashEngine
open Kivo.Engine.RbtreeEngine
open Kivo.Engine.RbtreeOrder
open Kivo.Engine.SkipEngine
open Kivo.Engine.SkipOrder
open Kivo.Engine.ArrayRuns (ArraySlots keyedPart)
open Kivo.Engine.HashTable (HashOk CacheOk nodes slotLimit unlinked)
open Kivo.Engine.SkipRuns (Level)
open Kivo.Engine.Store
open Kivo.Engine.Maps

/-! ## Calls whose allocations may fail -/

/-- The calls of `kvs_malloc`; a storing call makes each of them at most
once. -/
inductive Malloc where
  | keyCopy
  | valueCopy
  | node
  | buckets
  | fewerBuckets
  | oldBuf
  | newBuf
deriving DecidableEq, Repr

/-- `kv_data_dup`, and `none` when it returns an error. -/
def kvDataDupIn (granted : Bool) (src : Bytes) : Option (Option Bytes) :=
  if src.length = 0 then some none
  else if granted then some (some src)
  else none

/-- `kvs_array_set`. -/
def kvsArraySetIn (grants : Malloc → Bool) (inst : KvsArray)
    (key value : Bytes) (expireTime : Int) : KvsArray × Int :=
  match findKeyIndex inst key with
  | some index =>
      match kvDataDupIn (grants .valueCopy) value with
      | none =>
          ({ items := inst.items.modify index (fun item =>
              { item with value := none }) }, -2)
      | some copy =>
          ({ items := inst.items.modify index (fun item =>
              { item with
                value := copy
                expireTime := expireTime }) }, 0)
  | none =>
      if kvsArraySize ≤ inst.items.length then (inst, -1)
      else
        match kvDataDupIn (grants .keyCopy) key,
            kvDataDupIn (grants .valueCopy) value with
        | some keyCopy, some valueCopy =>
            ({ items := inst.items ++
                [{ key := keyCopy
                   value := valueCopy
                   expireTime := expireTime }] }, 0)
        | _, _ => (inst, -2)

/-- `kvs_rbtree_set`. -/
def kvsRbtreeSetIn (grants : Malloc → Bool) (T : KvsRbtree)
    (key value : Bytes) (expireTime : Int) : KvsRbtree × Int :=
  let entry : Entry :=
    { key := key, value := value, expireTime := expireTime }
  let found := rbtreeFindParent T key
  if found.1 ≠ nil then
    if value.length ≤ (T.nodes found.1).entry.value.length then
      (T.update found.1 (fun node =>
        { node with
          entry :=
            { node.entry with
              value := value
              expireTime := expireTime } }), 0)
    else
      let T := rbtreeDelete T found.1
      if grants .node then
        let again := rbtreeFindParent T key
        if again.1 ≠ nil then (T, -1)
        else (rbtreeInsertAt T again.2.1 again.2.2 entry, 0)
      else (T, -1)
  else if grants .node then
    (rbtreeInsertAt T found.2.1 found.2.2 entry, 0)
  else (T, -1)

/-- The level of the list is raised before the node is created. -/
def raiseLevel (skip : KvsSkip) (level : Nat) : KvsSkip :=
  { skip with level := if skip.level < level then level else skip.level }

/-- `kvs_skip_set`. -/
def kvsSkipSetIn (grants : Malloc → Bool) (skip : KvsSkip)
    (key value : Bytes) (expireTime : Int) (level : Nat) : KvsSkip × Int :=
  let entry : Entry :=
    { key := key, value := value, expireTime := expireTime }
  let found := skipFindUpdate skip key
  if found.2 ≠ null then
    if value.length ≤ (skip.nodes found.2).entry.value.length then
      (skip.update found.2 (fun node =>
        { node with
          entry :=
            { node.entry with
              value := value
              expireTime := expireTime } }), 0)
    else
      let skip := (kvsSkipDel skip key).1
      if grants .node then
        (skipInsert skip (skipFindUpdate skip key).1 level entry, 0)
      else (raiseLevel skip level, -2)
  else if grants .node then (skipInsert skip found.1 level entry, 0)
  else (raiseLevel skip level, -2)

/-- `kvs_hash_resize`. -/
def kvsHashResizeIn (granted : Bool) (hash : KvsHash) (newSlots : Int) :
    Option KvsHash :=
  if granted then kvsHashResize hash newSlots else none

/-- The growth step in front of an insertion. -/
def growIfFullIn (grants : Malloc → Bool) (hash : KvsHash) :
    Option KvsHash :=
  if hash.maxSlots ≤ hash.count then
    kvsHashResizeIn (grants .buckets) hash (toInt32 (hash.maxSlots * 2))
  else some hash

/-- `kvs_hash_set`. -/
def kvsHashSetIn (grants : Malloc → Bool) (hash : KvsHash) (key : Bytes)
    (hashCache : UInt64) (value : Bytes) (expireTime : Int) :
    KvsHash × Int :=
  match growIfFullIn grants hash with
  | none => (hash, -1)
  | some grown =>
      let slot := kvDataHash key hashCache grown.maxSlots
      let node : HashNode :=
        { key := key
          value := value
          hashCache := kvDataHashCalc key hashCache
          expireTime := expireTime }
      match grown.buckets[slot]? with
      | none => (grown, -1)
      | some bucket =>
          match bucket.findIdx? (HashNode.hasKey key) with
          | none =>
              if grants .node then
                ({ buckets := grown.buckets.set slot (node :: bucket)
                   count := grown.count + 1 }, 0)
              else (grown, -1)
          | some index =>
              let fits := (bucket[index]?).any
                (fun stored => decide (value.length ≤ stored.value.length))
              if fits then
                ({ grown with
                   buckets := grown.buckets.set slot
                     (bucket.modify index (fun stored =>
                       { stored with
                         value := value
                         expireTime := expireTime })) }, 0)
              else if grants .node then
                ({ buckets := grown.buckets.set slot
                     (node :: bucket.eraseIdx index)
                   count := grown.count - 1 + 1 }, 0)
              else (unlinked grown slot index bucket, -1)

/-- The shrinking step behind a deletion, which ignores a failure. -/
def shrinkIfSparseIn (grants : Malloc → Bool) (hash : KvsHash) : KvsHash :=
  if hash.count < hash.maxSlots / 4 ∧ initHashSlots < hash.maxSlots then
    (kvsHashResizeIn (grants .fewerBuckets) hash
      ((hash.maxSlots / 2 : Nat) : Int)).getD hash
  else hash

/-- `kvs_hash_del`. -/
def kvsHashDelIn (grants : Malloc → Bool) (hash : KvsHash) (key : Bytes)
    (hashCache : UInt64) : KvsHash × Int :=
  let slot := kvDataHash key hashCache hash.maxSlots
  match hash.buckets[slot]? with
  | none => (hash, -1)
  | some bucket =>
      match bucket.findIdx? (HashNode.hasKey key) with
      | none => (hash, 1)
      | some index =>
          (shrinkIfSparseIn grants (unlinked hash slot index bucket), 0)

/-- `kvs_hash_get`. -/
def kvsHashGetIn (grants : Malloc → Bool) (enableTtl : Bool) (now : Int)
    (hash : KvsHash) (key : Bytes) (hashCache : UInt64) :
    KvsHash × Option Bytes :=
  match hashFind hash key hashCache with
  | none => (hash, none)
  | some node =>
      if Expired enableTtl now node.expireTime then
        ((kvsHashDelIn grants hash key hashCache).1, none)
      else (hash, some node.value)

/-- `kvs_hash_append`. -/
def kvsHashAppendIn (grants : Malloc → Bool) (enableTtl : Bool) (now : Int)
    (hash : KvsHash) (key : Bytes) (hashCache : UInt64) (id : Bytes) :
    KvsHash × Int :=
  if id.length = 0 then (hash, -1)
  else
    let existing := kvsHashGetIn grants enableTtl now hash key hashCache
    let old := existing.2.getD []
    if old.length = 0 then kvsHashSetIn grants existing.1 key hashCache id 0
    else if id ∈ splitComma old then (existing.1, 0)
    else if grants .oldBuf ∧ grants .newBuf then
      kvsHashSetIn grants existing.1 key hashCache (old ++ ascii "," ++ id) 0
    else (existing.1, -1)

/-! ## Without failures -/

section Granted

/-- Every allocation succeeds. -/
def granted : Malloc → Bool :=
  fun _ => true

theorem kvDataDupIn_granted (src : Bytes) :
    kvDataDupIn true src = some (kvDataDup src) := by
  rw [kvDataDupIn, kvDataDup, if_pos rfl]
  split_ifs <;> rfl

theorem kvDataDupIn_eq {granted : Bool} {src : Bytes}
    {copy : Option Bytes} (copied : kvDataDupIn granted src = some copy) :
    copy = kvDataDup src := by
  rw [kvDataDupIn] at copied
  rw [kvDataDup]
  split_ifs at copied ⊢ with empty
  · exact (Option.some.inj copied).symm
  · exact (Option.some.inj copied).symm

theorem kvsArraySetIn_granted (inst : KvsArray) (key value : Bytes)
    (expireTime : Int) :
    kvsArraySetIn granted inst key value expireTime =
      kvsArraySet inst key value expireTime := by
  rw [kvsArraySetIn, kvsArraySet]
  cases findKeyIndex inst key with
  | none => simp only [granted, kvDataDupIn_granted]
  | some index => simp only [granted, kvDataDupIn_granted]

theorem kvsRbtreeSetIn_granted (T : KvsRbtree) (key value : Bytes)
    (expireTime : Int) :
    kvsRbtreeSetIn granted T key value expireTime =
      kvsRbtreeSet T key value expireTime := by
  simp only [kvsRbtreeSetIn, kvsRbtreeSet, granted, if_true]

theorem kvsSkipSetIn_granted (skip : KvsSkip) (key value : Bytes)
    (expireTime : Int) (level : Nat) :
    kvsSkipSetIn granted skip key value expireTime level =
      kvsSkipSet skip key value expireTime level := by
  simp only [kvsSkipSetIn, kvsSkipSet, granted, if_true]

/-- Only the growth and the node can fail. -/
theorem kvsHashSetIn_eq {grants : Malloc → Bool} {hash : KvsHash}
    (growth : growIfFullIn grants hash = growIfFull hash)
    (grant : grants .node = true) (key : Bytes) (hashCache : UInt64)
    (value : Bytes) (expireTime : Int) :
    kvsHashSetIn grants hash key hashCache value expireTime =
      kvsHashSet hash key hashCache value expireTime := by
  rw [kvsHashSetIn, kvsHashSet, growth]
  cases growIfFull hash with
  | none => rfl
  | some grown =>
      dsimp only
      cases grown.buckets[kvDataHash key hashCache grown.maxSlots]? with
      | none => rfl
      | some bucket =>
          dsimp only
          cases bucket.findIdx? (HashNode.hasKey key) with
          | none => exact if_pos grant
          | some index => simp only [grant, if_true]

theorem growIfFullIn_granted (hash : KvsHash) :
    growIfFullIn granted hash = growIfFull hash := by
  simp only [growIfFullIn, growIfFull, kvsHashResizeIn, granted, if_true]

theorem kvsHashSetIn_granted (hash : KvsHash) (key : Bytes)
    (hashCache : UInt64) (value : Bytes) (expireTime : Int) :
    kvsHashSetIn granted hash key hashCache value expireTime =
      kvsHashSet hash key hashCache value expireTime :=
  kvsHashSetIn_eq (growIfFullIn_granted hash) rfl key hashCache value
    expireTime

theorem kvsHashDelIn_granted (hash : KvsHash) (key : Bytes)
    (hashCache : UInt64) :
    kvsHashDelIn granted hash key hashCache =
      kvsHashDel hash key hashCache := by
  rw [kvsHashDelIn, kvsHashDel]
  cases hash.buckets[kvDataHash key hashCache hash.maxSlots]? with
  | none => rfl
  | some bucket =>
      dsimp only
      cases bucket.findIdx? (HashNode.hasKey key) with
      | none => rfl
      | some index => rfl

theorem kvsHashGetIn_granted (enableTtl : Bool) (now : Int) (hash : KvsHash)
    (key : Bytes) (hashCache : UInt64) :
    kvsHashGetIn granted enableTtl now hash key hashCache =
      kvsHashGet enableTtl now hash key hashCache := by
  rw [kvsHashGetIn, kvsHashGet]
  cases hashFind hash key hashCache with
  | none => rfl
  | some node => simp only [kvsHashDelIn_granted, Expired]

theorem kvsHashAppendIn_granted (enableTtl : Bool) (now : Int)
    (hash : KvsHash) (key : Bytes) (hashCache : UInt64) (id : Bytes) :
    kvsHashAppendIn granted enableTtl now hash key hashCache id =
      kvsHashAppend enableTtl now hash key hashCache id := by
  simp only [kvsHashAppendIn, kvsHashAppend, kvsHashGetIn_granted,
    kvsHashSetIn_granted]
  simp only [granted, and_self, if_true]

end Granted

/-! ## What the key held is given up -/

/-- Erasing a key that is there changes the map. -/
theorem erase_ne {map : Contents} {key : Bytes} {old : Item}
    (stored : map key = some old) : map.erase key ≠ map := by
  intro same
  have gone := congrFun same key
  rw [erase_self, stored] at gone
  cases gone

/-- Setting a key to what it holds changes nothing. -/
theorem set_eq_self_iff {map : Contents} {key : Bytes} {old new : Item}
    (stored : map key = some old) : map.set key new = map ↔ new = old := by
  constructor
  · intro same
    have here := congrFun same key
    rw [stored] at here
    exact Option.some.inj ((if_pos rfl).symm.trans here)
  · rintro rfl
    funext other
    rw [Contents.set]
    split_ifs with same
    · rw [same, stored]
    · rfl

section Array

variable {inst : KvsArray} (slots : ArraySlots inst)

include slots

/-- A failed copy leaves the key as if it were set to an empty value. -/
theorem kvsArraySetIn_cleared {key : Bytes} {index : Nat}
    (found : findKeyIndex inst key = some index) :
    ∃ old, contents (ArrayRuns.entries (keyedPart inst)) key = some old ∧
      key ≠ [] ∧
      { items := inst.items.modify index (fun item =>
          { item with value := none }) : KvsArray } =
        (kvsArraySet inst key [] old.expireTime).1 := by
  obtain ⟨front, slot, back, split, rfl, keyed, -⟩ := slots.found found
  have search := slots.arrayFind_contents key
  have here : arrayFind inst key = some slot := by
    rw [arrayFind, List.find?_eq_bind_findIdx?_getElem?, ← findKeyIndex,
      found, split]
    exact getElem?_split front slot back
  rw [here] at search
  refine ⟨item slot.entry, search.symm, ?_, ?_⟩
  · rintro rfl
    refine slots.proper slot ?_ keyed
    rw [split]
    simp
  · rw [kvsArraySet, found]
    dsimp only
    rw [split, modify_split, modify_split]
    rfl

theorem kvsArraySetIn_slots (grants : Malloc → Bool) (key value : Bytes)
    (expireTime : Int) :
    ArraySlots (kvsArraySetIn grants inst key value expireTime).1 := by
  have set := slots.set key value expireTime
  rw [kvsArraySet] at set
  rw [kvsArraySetIn]
  cases found : findKeyIndex inst key with
  | none =>
      rw [found] at set
      dsimp only at set ⊢
      split_ifs with full
      · exact slots
      · rw [if_neg full] at set
        cases copy : kvDataDupIn (grants .keyCopy) key with
        | none => exact slots
        | some keyCopy =>
            cases copy' : kvDataDupIn (grants .valueCopy) value with
            | none => exact slots
            | some valueCopy =>
                dsimp only
                rw [kvDataDupIn_eq copy, kvDataDupIn_eq copy']
                exact set
  | some index =>
      rw [found] at set
      dsimp only at set ⊢
      cases copy : kvDataDupIn (grants .valueCopy) value with
      | none =>
          obtain ⟨old, -, -, cleared⟩ := kvsArraySetIn_cleared slots found
          dsimp only
          rw [cleared]
          exact slots.set key [] old.expireTime
      | some valueCopy =>
          dsimp only
          rw [kvDataDupIn_eq copy]
          exact set

/-- When a failed `kvs_array_set` leaves the map alone. -/
theorem kvsArraySetIn_keeps_iff (grants : Malloc → Bool) (key value : Bytes)
    (expireTime : Int) :
    ((kvsArraySetIn grants inst key value expireTime).2 ≠ 0 →
        contents (ArrayRuns.entries (keyedPart
          (kvsArraySetIn grants inst key value expireTime).1)) =
          contents (ArrayRuns.entries (keyedPart inst))) ↔
      ¬ (value ≠ [] ∧ grants .valueCopy = false ∧
        ∃ old, contents (ArrayRuns.entries (keyedPart inst)) key = some old ∧
          old.value ≠ []) := by
  rw [kvsArraySetIn]
  cases found : findKeyIndex inst key with
  | none =>
      have search := slots.findKeyIndex_isSome key
      rw [found] at search
      have harmless : ¬ (value ≠ [] ∧ grants .valueCopy = false ∧
          ∃ old, contents (ArrayRuns.entries (keyedPart inst)) key =
            some old ∧ old.value ≠ []) := by
        rintro ⟨-, -, old, stored, -⟩
        rw [stored] at search
        cases search
      refine iff_of_true ?_ harmless
      dsimp only
      split_ifs
      · exact fun _ => rfl
      · cases kvDataDupIn (grants .keyCopy) key with
        | none => exact fun _ => rfl
        | some keyCopy =>
            cases kvDataDupIn (grants .valueCopy) value with
            | none => exact fun _ => rfl
            | some valueCopy => exact fun failed => absurd rfl failed
  | some index =>
      dsimp only
      by_cases empty : value = []
      · refine iff_of_true ?_ (fun lost => lost.1 empty)
        rw [empty]
        exact fun failed => absurd rfl failed
      · have size : ¬ value.length = 0 := by simpa using empty
        cases grant : grants .valueCopy with
        | true =>
            refine iff_of_true ?_ (fun lost => Bool.noConfusion lost.2.1)
            rw [kvDataDupIn, if_neg size, if_pos rfl]
            exact fun failed => absurd rfl failed
        | false =>
            obtain ⟨old, stored, proper, shape⟩ :=
              kvsArraySetIn_cleared slots found
            have cleared := (@ArraySlots.set_contents inst key slots proper
              (Or.inl (by rw [stored]; exact Option.some_ne_none _)) []
              old.expireTime).1
            rw [kvDataDupIn, if_neg size, if_neg Bool.false_ne_true]
            dsimp only
            rw [shape]
            have blank : { old with value := [] } = old ↔ old.value = [] := by
              cases old
              simp [eq_comm]
            rw [cleared, set_eq_self_iff stored, blank]
            constructor
            · rintro kept ⟨-, -, other, here, lost⟩
              obtain rfl := Option.some.inj (stored.symm.trans here)
              exact lost (kept (by decide))
            · intro harmless _
              by_contra lost
              exact harmless ⟨empty, rfl, old, stored, lost⟩

end Array

/-- A node is given up when the value is longer than the stored one and the new
node is refused. -/
def GivesUp (grants : Malloc → Bool) (map : Contents) (key value : Bytes) :
    Prop :=
  grants .node = false ∧
    ∃ old, map key = some old ∧ old.value.length < value.length

/-- When a failed `kvs_rbtree_set` leaves the map alone. -/
theorem kvsRbtreeSetIn_keeps_iff {T : KvsRbtree} (valid : RbValid T)
    (grants : Malloc → Bool) (key value : Bytes) (expireTime : Int) :
    ((kvsRbtreeSetIn grants T key value expireTime).2 ≠ 0 →
        contents (kvsRbtreeSetIn grants T key value expireTime).1.entries =
          contents T.entries) ↔
      ¬ GivesUp grants (contents T.entries) key value := by
  have search := rbtreeSearch_lookup valid key
  cases grant : grants .node with
  | true =>
      refine iff_of_true ?_ (fun lost => ?_)
      · have same : kvsRbtreeSetIn grants T key value expireTime =
            kvsRbtreeSet T key value expireTime := by
          simp only [kvsRbtreeSetIn, kvsRbtreeSet, grant, if_true]
        rw [same]
        exact fun failed =>
          absurd (kvsRbtreeSet_put valid key value expireTime).2.2 failed
      · rw [GivesUp, grant] at lost
        cases lost.1
  | false =>
      simp only [kvsRbtreeSetIn, grant, rbtreeFindParent_search,
        Bool.false_eq_true, if_false]
      by_cases found : rbtreeSearch T key = nil
      · rw [if_neg (not_not.mpr found)]
        rw [if_pos found] at search
        refine iff_of_true (fun _ => rfl) ?_
        rintro ⟨-, old, stored, -⟩
        rw [contents, ← search] at stored
        cases stored
      · rw [if_pos found]
        rw [if_neg found] at search
        have stored : contents T.entries key =
            some (item (T.nodes (rbtreeSearch T key)).entry) := by
          rw [contents, ← search]
          rfl
        split_ifs with fits
        · refine iff_of_true (fun failed => absurd rfl failed) ?_
          rintro ⟨-, old, here, longer⟩
          obtain rfl := Option.some.inj (stored.symm.trans here)
          exact Nat.not_lt_of_le fits longer
        · refine iff_of_false ?_ (fun kept => kept
            ⟨grant, _, stored, Nat.lt_of_not_le fits⟩)
          intro kept
          have after := kept (show (-1 : Int) ≠ 0 by decide)
          rw [(rbtreeDelete_erase valid found).2, contents_erase] at after
          exact erase_ne stored after

theorem raiseLevel_entries (skip : KvsSkip) (level : Nat) :
    (raiseLevel skip level).entries = skip.entries :=
  rfl

/-- When a failed `kvs_skip_set` leaves the map alone. -/
theorem kvsSkipSetIn_keeps_iff {skip : KvsSkip} (valid : SkipValid skip)
    (grants : Malloc → Bool) (key value : Bytes) (expireTime : Int)
    {level : Nat} (small : level ≤ maxLevel) :
    ((kvsSkipSetIn grants skip key value expireTime level).2 ≠ 0 →
        contents
            (kvsSkipSetIn grants skip key value expireTime level).1.entries =
          contents skip.entries) ↔
      ¬ GivesUp grants (contents skip.entries) key value := by
  have search := skipFindUpdate_lookup valid key
  cases grant : grants .node with
  | true =>
      refine iff_of_true ?_ (fun lost => ?_)
      · have same : kvsSkipSetIn grants skip key value expireTime level =
            kvsSkipSet skip key value expireTime level := by
          simp only [kvsSkipSetIn, kvsSkipSet, grant, if_true]
        rw [same]
        exact fun failed => absurd
          (kvsSkipSet_put valid key value expireTime small).2.2 failed
      · rw [GivesUp, grant] at lost
        cases lost.1
  | false =>
      simp only [kvsSkipSetIn, grant, Bool.false_eq_true, if_false]
      by_cases found : (skipFindUpdate skip key).2 = null
      · rw [if_neg (not_not.mpr found)]
        rw [if_pos found] at search
        refine iff_of_true (fun _ => by rw [raiseLevel_entries]) ?_
        rintro ⟨-, old, stored, -⟩
        rw [contents, ← search] at stored
        cases stored
      · rw [if_pos found]
        rw [if_neg found] at search
        have stored : contents skip.entries key =
            some (item (skip.nodes (skipFindUpdate skip key).2).entry) := by
          rw [contents, ← search]
          rfl
        split_ifs with fits
        · refine iff_of_true (fun failed => absurd rfl failed) ?_
          rintro ⟨-, old, here, longer⟩
          obtain rfl := Option.some.inj (stored.symm.trans here)
          exact Nat.not_lt_of_le fits longer
        · refine iff_of_false ?_ (fun kept => kept
            ⟨grant, _, stored, Nat.lt_of_not_le fits⟩)
          intro kept
          have after := kept (show (-2 : Int) ≠ 0 by decide)
          rw [raiseLevel_entries, (kvsSkipDel_erase valid key).2.1,
            contents_erase] at after
          exact erase_ne stored after

theorem kvsRbtreeSetIn_valid {T : KvsRbtree} (valid : RbValid T)
    (grants : Malloc → Bool) (key value : Bytes) (expireTime : Int) :
    RbValid (kvsRbtreeSetIn grants T key value expireTime).1 := by
  have set := (kvsRbtreeSet_put valid key value expireTime).1
  cases grant : grants .node with
  | true =>
      simpa only [kvsRbtreeSetIn, kvsRbtreeSet, grant, if_true] using set
  | false =>
      simp only [kvsRbtreeSet, rbtreeFindParent_search] at set
      simp only [kvsRbtreeSetIn, grant, rbtreeFindParent_search,
        Bool.false_eq_true, if_false]
      by_cases found : rbtreeSearch T key = nil
      · rw [if_neg (not_not.mpr found)]
        exact valid
      · rw [if_pos found] at set ⊢
        split_ifs with fits
        · rw [if_pos fits] at set
          exact set
        · exact (rbtreeDelete_erase valid found).1

theorem raiseLevel_valid {skip : KvsSkip} (valid : SkipValid skip)
    {level : Nat} (small : level ≤ maxLevel) :
    SkipValid (raiseLevel skip level) := by
  obtain ⟨order, ok⟩ := valid
  have top := ok.top
  have raised : skip.level ≤ (raiseLevel skip level).level := by
    rw [raiseLevel]
    dsimp only
    split_ifs with higher
    · exact higher.le
    · exact Nat.le_refl _
  refine ⟨order, ok.linked, ok.sorted, ?_, ?_, ok.live, ok.count, ok.heap⟩
  · intro address member
    exact (ok.bounded address member).trans raised
  · rw [raiseLevel]
    dsimp only
    split_ifs
    · exact small
    · exact top

theorem kvsSkipSetIn_valid {skip : KvsSkip} (valid : SkipValid skip)
    (grants : Malloc → Bool) (key value : Bytes) (expireTime : Int)
    {level : Nat} (small : level ≤ maxLevel) :
    SkipValid (kvsSkipSetIn grants skip key value expireTime level).1 := by
  have set := (kvsSkipSet_put valid key value expireTime small).1
  cases grant : grants .node with
  | true =>
      simpa only [kvsSkipSetIn, kvsSkipSet, grant, if_true] using set
  | false =>
      simp only [kvsSkipSet] at set
      simp only [kvsSkipSetIn, grant, Bool.false_eq_true, if_false]
      by_cases found : (skipFindUpdate skip key).2 = null
      · rw [if_neg (not_not.mpr found)]
        exact raiseLevel_valid valid small
      · rw [if_pos found] at set ⊢
        split_ifs with fits
        · rw [if_pos fits] at set
          exact set
        · exact raiseLevel_valid (kvsSkipDel_erase valid key).1 small

/-! ## Hash tables -/

/-- The growth step succeeds, or is not due. -/
def Grows (grants : Malloc → Bool) (hash : KvsHash) : Prop :=
  hash.maxSlots ≤ hash.count →
    hash.maxSlots < slotLimit ∧ grants .buckets = true

section Hash

variable {hash : KvsHash} (ok : HashOk hash) (grants : Malloc → Bool)

include ok

theorem growIfFullIn_some (grows : Grows grants hash) :
    ∃ grown, growIfFullIn grants hash = some grown ∧
      growIfFull hash = some grown ∧ HashOk grown ∧
      (nodes grown).Perm (nodes hash) ∧
      (nodes grown).length < grown.maxSlots := by
  have room : (nodes hash).length < slotLimit := by
    have count := ok.count
    have load := ok.load
    have most := ok.most
    by_cases full : (hash.maxSlots : Int) ≤ hash.count
    · have larger := (grows full).1
      omega
    · omega
  obtain ⟨grown, growth, grownOk, moved, space⟩ :=
    HashTable.growIfFull_ok ok room
  refine ⟨grown, ?_, growth, grownOk, moved, space⟩
  rw [← growth, growIfFullIn, growIfFull]
  split_ifs with full
  · rw [kvsHashResizeIn, (grows full).2, if_pos rfl]
  · rfl

theorem growIfFullIn_none (stuck : ¬ Grows grants hash) :
    growIfFullIn grants hash = none := by
  rw [Grows] at stuck
  obtain ⟨full, refused⟩ := Classical.not_imp.mp stuck
  rw [growIfFullIn, if_pos full]
  by_cases grant : grants .buckets = true
  · have large : ¬ hash.maxSlots < slotLimit :=
      fun small => refused ⟨small, grant⟩
    have count := ok.count
    have load := ok.load
    have most := ok.most
    have none := HashTable.growIfFull_none ok (by omega)
    rw [growIfFull, if_pos full] at none
    rw [kvsHashResizeIn, if_pos grant, none]
  · rw [kvsHashResizeIn, if_neg grant]

variable {key : Bytes} {hashCache : UInt64} (cache : CacheOk key hashCache)

include cache

/-- The bucket of a key is there. -/
theorem exists_slot :
    ∃ bucket, hash.buckets[kvDataHash key hashCache hash.maxSlots]? =
      some bucket := by
  obtain ⟨front, bucket, back, split, position, -⟩ :=
    ok.exists_bucket key
  refine ⟨bucket, ?_⟩
  rw [HashTable.kvDataHash_eq cache, ← position, split]
  exact getElem?_split front bucket back

/-- With its allocations granted, `kvs_hash_set` succeeds. -/
theorem kvsHashSetIn_stored (grows : Grows grants hash)
    (grant : grants .node = true) (value : Bytes) (expireTime : Int) :
    (kvsHashSetIn grants hash key hashCache value expireTime).2 = 0 := by
  obtain ⟨grown, growthIn, growth, grownOk, -, space⟩ :=
    growIfFullIn_some ok grants grows
  rw [kvsHashSetIn_eq (growthIn.trans growth.symm) grant]
  exact (HashTable.kvsHashSet_bucket grownOk space growth cache value
    expireTime).2.2

theorem kvsHashSetIn_ok (value : Bytes) (expireTime : Int) :
    HashOk (kvsHashSetIn grants hash key hashCache value expireTime).1 := by
  by_cases grows : Grows grants hash
  · obtain ⟨grown, growthIn, growth, grownOk, -, space⟩ :=
      growIfFullIn_some ok grants grows
    have set := (HashTable.kvsHashSet_bucket grownOk space growth cache value
      expireTime).1
    obtain ⟨bucket, slot⟩ := exists_slot grownOk cache
    simp only [kvsHashSet, growth, slot] at set
    simp only [kvsHashSetIn, growthIn, slot]
    cases hit : bucket.findIdx? (HashNode.hasKey key) with
    | none =>
        rw [hit] at set
        dsimp only at set ⊢
        split_ifs
        · exact set
        · exact grownOk
    | some index =>
        rw [hit] at set
        dsimp only at set ⊢
        split_ifs at set ⊢
        · exact set
        · exact set
        · exact (HashTable.unlinked_ok grownOk cache slot hit).1
  · rw [kvsHashSetIn, growIfFullIn_none ok grants grows]
    exact ok

/-- When a failed `kvs_hash_set` leaves the map alone. -/
theorem kvsHashSetIn_keeps_iff (value : Bytes) (expireTime : Int) :
    ((kvsHashSetIn grants hash key hashCache value expireTime).2 ≠ 0 →
        contents (HashTable.entries
            (kvsHashSetIn grants hash key hashCache value expireTime).1) =
          contents (HashTable.entries hash)) ↔
      ¬ (Grows grants hash ∧
        GivesUp grants (contents (HashTable.entries hash)) key value) := by
  by_cases grows : Grows grants hash
  · obtain ⟨grown, growthIn, -, grownOk, moved, -⟩ :=
      growIfFullIn_some ok grants grows
    have same := HashTable.contents_moved grownOk moved
    cases grant : grants .node with
    | true =>
        refine iff_of_true ?_ (fun lost => ?_)
        · exact fun failed => absurd (kvsHashSetIn_stored ok grants cache
            grows grant value expireTime) failed
        · have refused := lost.2.1
          rw [grant] at refused
          cases refused
    | false =>
        obtain ⟨bucket, slot⟩ := exists_slot grownOk cache
        have search := HashTable.hashFind_contents grownOk cache
        rw [hashFind, slot, Option.bind_some,
          List.find?_eq_bind_findIdx?_getElem?, same] at search
        simp only [kvsHashSetIn, growthIn, slot, grant, Bool.false_eq_true,
          if_false]
        cases hit : bucket.findIdx? (HashNode.hasKey key) with
        | none =>
            rw [hit] at search
            refine iff_of_true (fun _ => same) ?_
            rintro ⟨-, -, old, stored, -⟩
            rw [← search] at stored
            cases stored
        | some index =>
            obtain ⟨first, node, last, rfl, rfl, -, -⟩ :=
              findIdx?_split hit
            rw [hit, Option.bind_some, getElem?_split] at search
            simp only [getElem?_split, Option.any_some, decide_eq_true_eq]
            split_ifs with fits
            · refine iff_of_true (fun failed => absurd rfl failed) ?_
              rintro ⟨-, -, old, here, longer⟩
              obtain rfl := Option.some.inj (search.trans here)
              exact Nat.not_lt_of_le fits longer
            · refine iff_of_false ?_ (fun kept => kept
                ⟨grows, grant, _, search.symm, Nat.lt_of_not_le fits⟩)
              intro kept
              have after := kept (show (-1 : Int) ≠ 0 by decide)
              obtain ⟨afterOk, perm, -⟩ :=
                HashTable.unlinked_ok grownOk cache slot hit
              rw [HashTable.contents_removed afterOk perm, same] at after
              exact erase_ne search.symm after
  · refine iff_of_true ?_ (fun lost => grows lost.1)
    rw [kvsHashSetIn, growIfFullIn_none ok grants grows]
    exact fun _ => rfl

/-- Without a node for a new key, `kvs_hash_set` fails. -/
theorem kvsHashSetIn_refused
    (missing : contents (HashTable.entries hash) key = none)
    (refused : grants .node = false) (value : Bytes) (expireTime : Int) :
    (kvsHashSetIn grants hash key hashCache value expireTime).2 = -1 := by
  by_cases grows : Grows grants hash
  · obtain ⟨grown, growthIn, -, grownOk, moved, -⟩ :=
      growIfFullIn_some ok grants grows
    obtain ⟨bucket, slot⟩ := exists_slot grownOk cache
    have search := HashTable.hashFind_contents grownOk cache
    rw [hashFind, slot, Option.bind_some,
      List.find?_eq_bind_findIdx?_getElem?,
      HashTable.contents_moved grownOk moved, missing] at search
    simp only [kvsHashSetIn, growthIn, slot, refused, Bool.false_eq_true,
      if_false]
    cases hit : bucket.findIdx? (HashNode.hasKey key) with
    | none => rfl
    | some index =>
        obtain ⟨first, node, last, rfl, rfl, -, -⟩ := findIdx?_split hit
        rw [hit, Option.bind_some, getElem?_split] at search
        cases search
  · rw [kvsHashSetIn, growIfFullIn_none ok grants grows]

/-- The deletion of a key that is there leaves a table with a free place. -/
theorem kvsHashDelIn_removed {old : Item}
    (stored : contents (HashTable.entries hash) key = some old) :
    HashOk (kvsHashDelIn grants hash key hashCache).1 ∧
      contents (HashTable.entries
          (kvsHashDelIn grants hash key hashCache).1) =
        (contents (HashTable.entries hash)).erase key ∧
      Grows grants (kvsHashDelIn grants hash key hashCache).1 := by
  obtain ⟨bucket, slot⟩ := exists_slot ok cache
  have search := HashTable.hashFind_contents ok cache
  rw [hashFind, slot, Option.bind_some,
    List.find?_eq_bind_findIdx?_getElem?, stored] at search
  simp only [kvsHashDelIn, slot]
  cases hit : bucket.findIdx? (HashNode.hasKey key) with
  | none =>
      rw [hit] at search
      cases search
  | some index =>
      dsimp only
      obtain ⟨removedOk, perm, space⟩ := HashTable.unlinked_ok ok cache slot hit
      have free : ∀ table, HashOk table →
          (nodes table).length < table.maxSlots → Grows grants table := by
        intro table tableOk room full
        have count := tableOk.count
        omega
      by_cases grant : grants .fewerBuckets = true
      · have same : shrinkIfSparseIn grants (unlinked hash
            (kvDataHash key hashCache hash.maxSlots) index bucket) =
            shrinkIfSparse (unlinked hash
              (kvDataHash key hashCache hash.maxSlots) index bucket) := by
          simp only [shrinkIfSparseIn, shrinkIfSparse, kvsHashResizeIn,
            if_pos grant]
        obtain ⟨shrunk, moved, room⟩ := HashTable.shrinkIfSparse_ok removedOk
        rw [same]
        exact ⟨shrunk,
          HashTable.contents_removed shrunk (moved.trans perm),
          free _ shrunk (room space)⟩
      · have same : shrinkIfSparseIn grants (unlinked hash
            (kvDataHash key hashCache hash.maxSlots) index bucket) =
            unlinked hash (kvDataHash key hashCache hash.maxSlots) index
              bucket := by
          simp only [shrinkIfSparseIn, kvsHashResizeIn, if_neg grant,
            Option.getD_none, ite_self]
        rw [same]
        exact ⟨removedOk, HashTable.contents_removed removedOk perm,
          free _ removedOk space⟩

theorem kvsHashAppendIn_ok (enableTtl : Bool) (now : Int) (id : Bytes) :
    HashOk (kvsHashAppendIn grants enableTtl now hash key hashCache
      id).1 := by
  have read : HashOk
      (kvsHashGetIn grants enableTtl now hash key hashCache).1 := by
    rw [kvsHashGetIn]
    rcases HashRuns.hashFind_cases ok cache with
      ⟨found, -⟩ | ⟨node, found, stored⟩
    · rw [found]
      exact ok
    · rw [found]
      dsimp only
      split_ifs
      · exact (kvsHashDelIn_removed ok grants cache stored).1
      · exact ok
  rw [kvsHashAppendIn]
  dsimp only
  split_ifs
  · exact ok
  · exact kvsHashSetIn_ok read grants cache id 0
  · exact read
  · exact kvsHashSetIn_ok read grants cache _ 0
  · exact read

/-- A list is given up when it has expired, or when it does not fit its node,
and the new node is refused. -/
def GivesUpList (grants : Malloc → Bool) (enableTtl : Bool) (now : Int)
    (hash : KvsHash) (key id : Bytes) : Prop :=
  id ≠ [] ∧ grants .node = false ∧
    ∃ old, contents (HashTable.entries hash) key = some old ∧
      (Expired enableTtl now old.expireTime ∨
        Grows grants hash ∧
          (old.value = [] ∨
            id ∉ splitComma old.value ∧ grants .oldBuf = true ∧
              grants .newBuf = true))

/-- An expired list is gone before the new one is stored. -/
theorem kvsHashAppendIn_expired {enableTtl : Bool} {now : Int}
    {old : Item}
    (stored : contents (HashTable.entries hash) key = some old)
    (late : Expired enableTtl now old.expireTime) {id : Bytes}
    (proper : id ≠ []) :
    ((kvsHashSetIn grants (kvsHashDelIn grants hash key hashCache).1 key
          hashCache id 0).2 ≠ 0 →
        contents (HashTable.entries (kvsHashSetIn grants
          (kvsHashDelIn grants hash key hashCache).1 key hashCache id 0).1) =
          contents (HashTable.entries hash)) ↔
      ¬ GivesUpList grants enableTtl now hash key id := by
  obtain ⟨removedOk, removed, grows⟩ :=
    kvsHashDelIn_removed ok grants cache stored
  have missing : contents (HashTable.entries
      (kvsHashDelIn grants hash key hashCache).1) key = none := by
    rw [removed]
    exact erase_self _ key
  cases grant : grants .node with
  | true =>
      refine iff_of_true ?_ (fun lost => ?_)
      · exact fun failed => absurd (kvsHashSetIn_stored removedOk grants
          cache grows grant id 0) failed
      · have refused := lost.2.1
        rw [grant] at refused
        cases refused
  | false =>
      refine iff_of_false ?_ (fun kept => kept
        ⟨proper, grant, old, stored, Or.inl late⟩)
      intro kept
      have failed := kvsHashSetIn_refused removedOk grants cache missing grant
        id 0
      have after := kept (by rw [failed]; decide)
      have unchanged := (kvsHashSetIn_keeps_iff removedOk grants cache id
        0).mpr (fun lost => by
          obtain ⟨-, -, other, here, -⟩ := lost
          rw [missing] at here
          cases here)
      rw [unchanged (by rw [failed]; decide), removed] at after
      exact erase_ne stored after

/-- When a failed `kvs_hash_append` leaves the map alone. -/
theorem kvsHashAppendIn_keeps_iff (enableTtl : Bool) (now : Int)
    (id : Bytes) :
    ((kvsHashAppendIn grants enableTtl now hash key hashCache id).2 ≠ 0 →
        contents (HashTable.entries
            (kvsHashAppendIn grants enableTtl now hash key hashCache id).1) =
          contents (HashTable.entries hash)) ↔
      ¬ GivesUpList grants enableTtl now hash key id := by
  by_cases empty : id = []
  · refine iff_of_true ?_ (fun lost => lost.1 empty)
    rw [kvsHashAppendIn, empty]
    exact fun _ => rfl
  · have size : ¬ id.length = 0 := by simpa using empty
    rw [kvsHashAppendIn, if_neg size]
    rcases HashRuns.hashFind_cases ok cache with
      ⟨found, missing⟩ | ⟨node, found, stored⟩
    · simp only [kvsHashGetIn, found, Option.getD_none, List.length_nil,
        if_true]
      rw [kvsHashSetIn_keeps_iff ok grants cache]
      refine iff_of_true ?_ ?_
      · rintro ⟨-, -, old, here, -⟩
        rw [missing] at here
        cases here
      · rintro ⟨-, -, old, here, -⟩
        rw [missing] at here
        cases here
    · by_cases late : Expired enableTtl now node.expireTime
      · simp only [kvsHashGetIn, found, if_pos late, Option.getD_none,
          List.length_nil, if_true]
        exact kvsHashAppendIn_expired ok grants cache stored late empty
      · have list : GivesUpList grants enableTtl now hash key id ↔
            grants .node = false ∧ Grows grants hash ∧
              (node.value = [] ∨
                id ∉ splitComma node.value ∧ grants .oldBuf = true ∧
                  grants .newBuf = true) := by
          constructor
          · rintro ⟨-, refused, old, here, gone | live⟩
            · obtain rfl := Option.some.inj (stored.symm.trans here)
              exact absurd gone late
            · obtain rfl := Option.some.inj (stored.symm.trans here)
              exact ⟨refused, live⟩
          · rintro ⟨refused, live⟩
            exact ⟨empty, refused, _, stored, Or.inr live⟩
        have longer : ∀ value : Bytes,
            node.value.length < value.length →
            (GivesUp grants (contents (HashTable.entries hash)) key value ↔
              grants .node = false) := by
          intro value more
          exact ⟨fun lost => lost.1,
            fun refused => ⟨refused, _, stored, more⟩⟩
        simp only [kvsHashGetIn, found, if_neg late, Option.getD_some]
        rw [list]
        by_cases blank : node.value = []
        · rw [if_pos (by rw [blank]; rfl),
            kvsHashSetIn_keeps_iff ok grants cache,
            longer id (by rw [blank]; exact Nat.pos_of_ne_zero size)]
          exact not_congr
            ⟨fun lost => ⟨lost.2, lost.1, Or.inl blank⟩,
              fun lost => ⟨lost.2.1, lost.1⟩⟩
        · rw [if_neg (by simpa using blank)]
          by_cases listed : id ∈ splitComma node.value
          · rw [if_pos listed]
            refine iff_of_true (fun failed => absurd rfl failed) ?_
            rintro ⟨-, -, none | more⟩
            · exact blank none
            · exact more.1 listed
          · rw [if_neg listed]
            by_cases buffers : grants .oldBuf = true ∧ grants .newBuf = true
            · rw [if_pos buffers, kvsHashSetIn_keeps_iff ok grants cache,
                longer _ (by simp; omega)]
              exact not_congr
                ⟨fun lost => ⟨lost.2, lost.1, Or.inr ⟨listed, buffers⟩⟩,
                  fun lost => ⟨lost.2.1, lost.1⟩⟩
            · rw [if_neg buffers]
              refine iff_of_true (fun _ => rfl) ?_
              rintro ⟨-, -, none | more⟩
              · exact blank none
              · exact buffers more.2

end Hash

/-! ## Calls on the tables -/

/-- What a storing call finds outside the tables: which allocations succeed, the
level that is drawn, the clock, and whether the hash of the key is cached. -/
structure Outside where
  grants : Malloc → Bool
  level : Level
  enableTtl : Bool
  now : Int
  filled : Bool

/-- The storing calls: the `kvs_*_set` of a table and `kvs_hash_append`. -/
inductive StoreCall where
  | set (table : Table) (key value : Bytes) (expireTime : Int)
  | append (name : HashName) (key id : Bytes)
deriving DecidableEq, Repr

/-- The table of a storing call. -/
def StoreCall.table : StoreCall → Table
  | .set table _ _ _ => table
  | .append name _ _ => .hash name

/-- Carry out a storing call, with its return value. -/
def storeIn (outside : Outside) (tables : Tables) :
    StoreCall → Tables × Int
  | .set .array key value expireTime =>
      let result := kvsArraySetIn outside.grants tables.array key value
        expireTime
      ({ tables with array := result.1 }, result.2)
  | .set .rbtree key value expireTime =>
      let result := kvsRbtreeSetIn outside.grants tables.rbtree key value
        expireTime
      ({ tables with rbtree := result.1 }, result.2)
  | .set (.hash name) key value expireTime =>
      let result := kvsHashSetIn outside.grants (tables.hashes name) key
        (HashRuns.cacheOf outside.filled key) value expireTime
      ({ tables with
         hashes := Function.update tables.hashes name result.1 }, result.2)
  | .set .skip key value expireTime =>
      let result := kvsSkipSetIn outside.grants tables.skip key value
        expireTime outside.level
      ({ tables with skip := result.1 }, result.2)
  | .append name key id =>
      let result := kvsHashAppendIn outside.grants outside.enableTtl
        outside.now (tables.hashes name) key
        (HashRuns.cacheOf outside.filled key) id
      ({ tables with
         hashes := Function.update tables.hashes name result.1 }, result.2)

/-- With memory for everything, setting is the call of the engine. -/
theorem storeIn_granted (outside : Outside) (all : outside.grants = granted)
    (cold : outside.filled = false) (tables : Tables) (table : Table)
    (key value : Bytes) (expireTime : Int) :
    tables.operate outside.enableTtl outside.level table
        (.set key value expireTime) =
      ((storeIn outside tables (.set table key value expireTime)).1,
        .status
          (storeIn outside tables (.set table key value expireTime)).2) := by
  cases table with
  | array =>
      simp only [storeIn, all, kvsArraySetIn_granted]
      rfl
  | rbtree =>
      simp only [storeIn, all, kvsRbtreeSetIn_granted]
      rfl
  | hash name =>
      simp only [storeIn, all, cold, kvsHashSetIn_granted]
      rfl
  | skip =>
      simp only [storeIn, all, kvsSkipSetIn_granted]
      rfl

/-- With memory for everything, appending is the call of the engine. -/
theorem storeIn_append_granted (outside : Outside)
    (all : outside.grants = granted) (tables : Tables) (name : HashName)
    (key id : Bytes) :
    storeIn outside tables (.append name key id) =
      ({ tables with
         hashes := Function.update tables.hashes name
           (kvsHashAppend outside.enableTtl outside.now (tables.hashes name)
             key (HashRuns.cacheOf outside.filled key) id).1 },
        (kvsHashAppend outside.enableTtl outside.now (tables.hashes name) key
          (HashRuns.cacheOf outside.filled key) id).2) := by
  simp only [storeIn, all, kvsHashAppendIn_granted]

/-- Storing calls keep the tables consistent, whatever fails. -/
theorem storeIn_valid {tables : Tables} (valid : Valid tables)
    (outside : Outside) (call : StoreCall) :
    Valid (storeIn outside tables call).1 := by
  cases call with
  | set table key value expireTime =>
      cases table with
      | array =>
          exact ⟨kvsArraySetIn_slots valid.array outside.grants key value
            expireTime, valid.rbtree, valid.hashes, valid.skip⟩
      | rbtree =>
          exact ⟨valid.array, kvsRbtreeSetIn_valid valid.rbtree
            outside.grants key value expireTime, valid.hashes, valid.skip⟩
      | hash name =>
          exact valid.setHash (kvsHashSetIn_ok (valid.hashes name)
            outside.grants (HashRuns.cacheOf_ok outside.filled key) value
            expireTime)
      | skip =>
          exact ⟨valid.array, valid.rbtree, valid.hashes,
            kvsSkipSetIn_valid valid.skip outside.grants key value expireTime
              (Nat.le_of_lt_succ outside.level.isLt)⟩
  | append name key id =>
      exact valid.setHash (kvsHashAppendIn_ok (valid.hashes name)
        outside.grants (HashRuns.cacheOf_ok outside.filled key)
        outside.enableTtl outside.now id)

/--
The call gives up what its key holds and does not get the memory for what it is
to hold: the array for the copy of a value, the others for the node of a longer
value, `kvs_hash_append` also for the first id after an expired list.
-/
def Destroys (outside : Outside) (tables : Tables) : StoreCall → Prop
  | .set .array key value _ =>
      value ≠ [] ∧ outside.grants .valueCopy = false ∧
        ∃ old, Tables.map tables .array key = some old ∧ old.value ≠ []
  | .set .rbtree key value _ =>
      GivesUp outside.grants (Tables.map tables .rbtree) key value
  | .set (.hash name) key value _ =>
      Grows outside.grants (tables.hashes name) ∧
        GivesUp outside.grants (Tables.map tables (.hash name)) key value
  | .set .skip key value _ =>
      GivesUp outside.grants (Tables.map tables .skip) key value
  | .append name key id =>
      GivesUpList outside.grants outside.enableTtl outside.now
        (tables.hashes name) key id

/--
A storing call that returns an error leaves the map of its engine as it was
exactly when it has not given up what its key held.
-/
theorem failed_store_keeps_iff {tables : Tables} (valid : Valid tables)
    (outside : Outside) (call : StoreCall) :
    ((storeIn outside tables call).2 ≠ 0 →
        Tables.map (storeIn outside tables call).1 call.table =
          Tables.map tables call.table) ↔
      ¬ Destroys outside tables call := by
  cases call with
  | set table key value expireTime =>
      cases table with
      | array =>
          exact kvsArraySetIn_keeps_iff valid.array outside.grants key value
            expireTime
      | rbtree =>
          exact kvsRbtreeSetIn_keeps_iff valid.rbtree outside.grants key value
            expireTime
      | hash name =>
          have iff := kvsHashSetIn_keeps_iff (valid.hashes name)
            outside.grants (HashRuns.cacheOf_ok outside.filled key) value
            expireTime
          simp only [storeIn, StoreCall.table, Tables.map, Tables.keyed,
            Tables.entries, Function.update_self]
          exact iff
      | skip =>
          exact kvsSkipSetIn_keeps_iff valid.skip outside.grants key value
            expireTime (Nat.le_of_lt_succ outside.level.isLt)
  | append name key id =>
      have iff := kvsHashAppendIn_keeps_iff (valid.hashes name)
        outside.grants (HashRuns.cacheOf_ok outside.filled key)
        outside.enableTtl outside.now id
      simp only [storeIn, StoreCall.table, Tables.map, Tables.keyed,
        Tables.entries, Function.update_self]
      exact iff

/-- Tables in which the tree holds `v` at `k`. -/
def treeTables : Tables :=
  (Tables.create.operate false 0 .rbtree (.set (ascii "k") (ascii "v") 0)).1

/-- An outside without memory. -/
def noMemory : Outside :=
  { grants := fun _ => false
    level := 0
    enableTtl := false
    now := 0
    filled := false }

/-- A new key that finds no memory leaves the tree as it was. -/
theorem failed_store_keeps_new_key :
    Tables.map (storeIn noMemory treeTables
        (.set .rbtree (ascii "j") (ascii "w") 0)).1 .rbtree =
      Tables.map treeTables .rbtree := by
  refine (failed_store_keeps_iff
    (valid_create.operate false 0 .rbtree _) noMemory
    (.set .rbtree (ascii "j") (ascii "w") 0)).mpr ?_ (by decide +kernel)
  rintro ⟨-, old, stored, -⟩
  have missing : Tables.map treeTables .rbtree (ascii "j") = none := by
    decide +kernel
  exact absurd (missing.symm.trans stored) (Option.some_ne_none _).symm

/-- An overwriting call that finds no memory loses the key. -/
theorem failed_store_loses_key :
    (storeIn noMemory treeTables
        (.set .rbtree (ascii "k") (ascii "vw") 0)).2 = -1 ∧
      Tables.map treeTables .rbtree (ascii "k") =
        some { value := ascii "v", expireTime := 0 } ∧
      Tables.map (storeIn noMemory treeTables
        (.set .rbtree (ascii "k") (ascii "vw") 0)).1 .rbtree (ascii "k") =
        none := by
  decide +kernel

end Kivo.Engine.OutOfMemory
