import Kivo.Engine.HashTable

/-!
# Runs of the hash engine

A run is any sequence of calls on a fresh table; the key of a call comes with
its hash or without.  As long as no key is set in a table that already holds
`2 ^ 30` nodes, the table stays valid and every call answers as the map of the
engine does.  At that size the doubled number of buckets no longer is a
positive `int`, and `kvs_hash_set` refuses every key, old or new.
-/

namespace Kivo.Engine.HashRuns

open Kivo.Clib.Memory
open Kivo.Clib.Slots
open Kivo.Clib.Simulation
open Kivo.Engine.Data
open Kivo.Engine.KeyMap
open Kivo.Engine.HashEngine
open Kivo.Engine.HashTable

/-! ## Calls -/

/-- The hash cache of a key: not computed, or the true hash. -/
def cacheOf (filled : Bool) (key : Bytes) : UInt64 :=
  if filled then kvHashShort key else 0

theorem cacheOf_ok (filled : Bool) (key : Bytes) :
    CacheOk key (cacheOf filled key) := by
  rw [CacheOk, cacheOf]
  split_ifs
  · exact Or.inr rfl
  · exact Or.inl rfl

/-- A call of the engine, with the state of the hash cache of its key. -/
def hashStep (enableTtl : Bool) (hash : KvsHash) :
    Operation × Bool → KvsHash × Answer
  | (.set key value expireTime, filled) =>
      let result :=
        kvsHashSet hash key (cacheOf filled key) value expireTime
      (result.1, .status result.2)
  | (.mod key value expireTime, filled) =>
      let result :=
        kvsHashMod hash key (cacheOf filled key) value expireTime
      (result.1, .status result.2)
  | (.get now key, filled) =>
      let result := kvsHashGet enableTtl now hash key (cacheOf filled key)
      (result.1, .value result.2)
  | (.exist now key, filled) =>
      let result := kvsHashExist enableTtl now hash key (cacheOf filled key)
      (result.1, .status result.2)
  | (.del key, filled) =>
      let result := kvsHashDel hash key (cacheOf filled key)
      (result.1, .status result.2)
  | (.delIfExpired key expectedExpire, filled) =>
      let result :=
        kvsHashDelIfExpired hash key (cacheOf filled key) expectedExpire
      (result.1, .status (if result.2 then 1 else 0))

/-- A call on the map; the hash cache is of no concern. -/
def mapStep (enableTtl : Bool) (map : Contents)
    (input : Operation × Bool) : Contents × Answer :=
  map.step enableTtl input.1

/-- The call does not set a key in a table of the largest size. -/
def HasRoom (hash : KvsHash) : Operation × Bool → Prop
  | (.set _ _ _, _) => (nodes hash).length < slotLimit
  | (.mod _ _ _, _) => (nodes hash).length < slotLimit
  | _ => True

instance hasRoomDecidable (hash : KvsHash) :
    ∀ input : Operation × Bool, Decidable (HasRoom hash input)
  | (.set _ _ _, _) =>
      inferInstanceAs (Decidable ((nodes hash).length < slotLimit))
  | (.mod _ _ _, _) =>
      inferInstanceAs (Decidable ((nodes hash).length < slotLimit))
  | (.get _ _, _) => inferInstanceAs (Decidable True)
  | (.exist _ _, _) => inferInstanceAs (Decidable True)
  | (.del _, _) => inferInstanceAs (Decidable True)
  | (.delIfExpired _ _, _) => inferInstanceAs (Decidable True)

/-! ## Reading calls -/

section Reading

variable {hash : KvsHash} {key : Bytes} {hashCache : UInt64}

/-- The search of a key, on the map. -/
theorem hashFind_cases (ok : HashOk hash) (cache : CacheOk key hashCache) :
    (hashFind hash key hashCache = none ∧
        contents (entries hash) key = none) ∨
      ∃ node, hashFind hash key hashCache = some node ∧
        contents (entries hash) key = some (item node.entry) := by
  have search := hashFind_contents ok cache
  cases found : hashFind hash key hashCache with
  | none =>
      rw [found] at search
      exact Or.inl ⟨rfl, search.symm⟩
  | some node =>
      rw [found] at search
      exact Or.inr ⟨node, rfl, search.symm⟩

/-- `kvs_hash_get` reads the entry of the key, or erases it when its time has
passed. -/
theorem kvsHashGet_contents (ok : HashOk hash)
    (cache : CacheOk key hashCache) (enableTtl : Bool) (now : Int) :
    HashOk (kvsHashGet enableTtl now hash key hashCache).1 ∧
      contents (entries (kvsHashGet enableTtl now hash key hashCache).1) =
        (contents (entries hash)).purge enableTtl now key ∧
      (kvsHashGet enableTtl now hash key hashCache).2 =
        ((contents (entries hash)).purge enableTtl now key key).map
          Item.value := by
  rcases hashFind_cases ok cache with ⟨found, stored⟩ | ⟨node, found, stored⟩
  · simp only [kvsHashGet, found, Contents.purge, stored]
    exact ⟨ok, trivial, rfl⟩
  · have time : (item node.entry).expireTime = node.expireTime := rfl
    simp only [kvsHashGet, found, Contents.purge, stored, time]
    obtain ⟨after, erased, _⟩ := kvsHashDel_contents ok cache
    split_ifs with late
    · refine ⟨after, erased, ?_⟩
      rw [Contents.erase, if_pos rfl]
      rfl
    · rw [stored]
      exact ⟨ok, rfl, rfl⟩

/-- `kvs_hash_exist` does what `kvs_hash_get` does. -/
theorem kvsHashExist_get (enableTtl : Bool) (now : Int) :
    kvsHashExist enableTtl now hash key hashCache =
      ((kvsHashGet enableTtl now hash key hashCache).1,
        if (kvsHashGet enableTtl now hash key hashCache).2.isSome then 0
        else 1) := by
  rw [kvsHashExist, kvsHashGet]
  cases hashFind hash key hashCache with
  | none => rfl
  | some node =>
      by_cases late : enableTtl ∧ 0 < node.expireTime ∧ node.expireTime < now
      · simp [late]
      · simp only [if_neg late, Option.isSome_some, if_true]

/-- `kvs_hash_del_if_expired` erases the key when its entry carries the
expected time. -/
theorem kvsHashDelIfExpired_contents (ok : HashOk hash)
    (cache : CacheOk key hashCache) (expectedExpire : Int) :
    HashOk (kvsHashDelIfExpired hash key hashCache expectedExpire).1 ∧
      (contents
          (entries
            (kvsHashDelIfExpired hash key hashCache expectedExpire).1),
        (kvsHashDelIfExpired hash key hashCache expectedExpire).2) =
        if (contents (entries hash) key).map Item.expireTime =
            some expectedExpire then
          ((contents (entries hash)).erase key, true)
        else (contents (entries hash), false) := by
  rcases hashFind_cases ok cache with ⟨found, stored⟩ | ⟨node, found, stored⟩
  · simp only [kvsHashDelIfExpired, found, stored]
    exact ⟨ok, rfl⟩
  · have time : (item node.entry).expireTime = node.expireTime := rfl
    simp only [kvsHashDelIfExpired, found, stored, Option.map_some, time,
      Option.some.injEq]
    obtain ⟨after, erased, _⟩ := kvsHashDel_contents ok cache
    split_ifs with here
    · exact ⟨after, by rw [erased]⟩
    · exact ⟨ok, rfl⟩

/-- The walk visits the entries that are not expired. -/
theorem kvsHashForeach_eq (enableTtl : Bool) (now : Int) (hash : KvsHash) :
    kvsHashForeach enableTtl now hash =
      unexpired enableTtl now (entries hash) := by
  have bucketwise : ∀ bucket : List HashNode,
      (bucket.filter (fun node =>
        ¬ Expired enableTtl now node.expireTime)).map HashNode.entry =
        unexpired enableTtl now (bucket.map HashNode.entry) := by
    intro bucket
    rw [unexpired, List.filter_map]
    rfl
  rw [kvsHashForeach, entries, nodes]
  induction hash.buckets with
  | nil => rfl
  | cons bucket rest induction =>
      rw [List.flatMap_cons, bucketwise, induction, List.flatten_cons,
        List.map_append, unexpired_append]

end Reading

/-! ## Runs -/

/-- The table that stands for a map. -/
def Represents (hash : KvsHash) (map : Contents) : Prop :=
  HashOk hash ∧ contents (entries hash) = map

theorem hashStep_represents (enableTtl : Bool) {hash : KvsHash}
    {map : Contents} (represents : Represents hash map)
    (input : Operation × Bool) (room : HasRoom hash input) :
    Represents (hashStep enableTtl hash input).1
        (mapStep enableTtl map input).1 ∧
      (hashStep enableTtl hash input).2 =
        (mapStep enableTtl map input).2 := by
  obtain ⟨ok, rfl⟩ := represents
  obtain ⟨operation, filled⟩ := input
  have cache := cacheOf_ok filled
  cases operation with
  | set key value expireTime =>
      obtain ⟨after, stored, status⟩ :=
        kvsHashSet_contents ok room (cache key) value expireTime
      exact ⟨⟨after, stored⟩, congrArg Answer.status status⟩
  | mod key value expireTime =>
      obtain ⟨after, stored, status⟩ :=
        kvsHashSet_contents ok room (cache key) value expireTime
      exact ⟨⟨after, stored⟩, congrArg Answer.status status⟩
  | get now key =>
      obtain ⟨after, stored, read⟩ :=
        kvsHashGet_contents ok (cache key) enableTtl now
      exact ⟨⟨after, stored⟩, congrArg Answer.value read⟩
  | exist now key =>
      obtain ⟨after, stored, read⟩ :=
        kvsHashGet_contents ok (cache key) enableTtl now
      simp only [hashStep, mapStep, Contents.step, kvsHashExist_get, read,
        Option.isSome_map]
      exact ⟨⟨after, stored⟩, trivial⟩
  | del key =>
      obtain ⟨after, stored, status⟩ := kvsHashDel_contents ok (cache key)
      exact ⟨⟨after, stored⟩, congrArg Answer.status status⟩
  | delIfExpired key expectedExpire =>
      obtain ⟨after, result⟩ :=
        kvsHashDelIfExpired_contents ok (cache key) expectedExpire
      simp only [hashStep, mapStep, Contents.step]
      split_ifs at result ⊢ with here <;>
        simp_all [Represents]

theorem hashRun_represents (enableTtl : Bool)
    {inputs : List (Operation × Bool)}
    (room : Along (hashStep enableTtl) HasRoom kvsHashCreate inputs) :
    Represents (run (hashStep enableTtl) kvsHashCreate inputs).1
        (run (mapStep enableTtl) Contents.empty inputs).1 ∧
      (run (hashStep enableTtl) kvsHashCreate inputs).2 =
        (run (mapStep enableTtl) Contents.empty inputs).2 := by
  refine run_simulation ?_ ?_ room
  · intro hash map input represents fits
    exact hashStep_represents enableTtl represents input fits
  · exact ⟨hashOk_create, rfl⟩

/--
The representation invariant: the number of buckets is a power of two of at
least `INIT_HASH_SLOTS`, every node lies in the bucket that its cached hash
names, keys are unique and the counter is right.
-/
structure HashInvariant (hash : KvsHash) : Prop where
  power : ∃ exponent, hash.maxSlots = 2 ^ exponent
  least : initHashSlots ≤ hash.maxSlots
  placed : ∀ index bucket, hash.buckets[index]? = some bucket →
    ∀ node ∈ bucket,
      node.hashCache.toNat &&& (hash.maxSlots - 1) = index
  distinct : ((nodes hash).map HashNode.key).Nodup
  count : hash.count = (nodes hash).length

theorem HashOk.invariant {hash : KvsHash} (ok : HashOk hash) :
    HashInvariant hash := by
  refine ⟨ok.power, ok.least, ?_, ok.distinct, ok.count⟩
  intro index bucket here node member
  exact placedFrom_getElem? ok.placed here member

/--
A run in which no key is set in a table of `2 ^ 30` nodes keeps the
representation invariant, answers as the map does and ends in a table with the
contents of the map, whose walk visits exactly the entries that are not
expired, each once.
-/
theorem hashRun_refines_map (enableTtl : Bool)
    (inputs : List (Operation × Bool))
    (room : Along (hashStep enableTtl) HasRoom kvsHashCreate inputs) :
    HashInvariant (run (hashStep enableTtl) kvsHashCreate inputs).1 ∧
      (run (hashStep enableTtl) kvsHashCreate inputs).2 =
        (run (mapStep enableTtl) Contents.empty inputs).2 ∧
      contents
          (entries (run (hashStep enableTtl) kvsHashCreate inputs).1) =
        (run (mapStep enableTtl) Contents.empty inputs).1 ∧
      ∀ now,
        ((kvsHashForeach enableTtl now
          (run (hashStep enableTtl) kvsHashCreate inputs).1).map
            Entry.key).Nodup ∧
        ∀ entry,
          entry ∈ kvsHashForeach enableTtl now
              (run (hashStep enableTtl) kvsHashCreate inputs).1 ↔
            (run (mapStep enableTtl) Contents.empty inputs).1
                entry.key = some (item entry) ∧
              ¬ Expired enableTtl now entry.expireTime := by
  obtain ⟨⟨ok, stored⟩, answers⟩ := hashRun_represents enableTtl room
  refine ⟨HashOk.invariant ok, answers, stored, ?_⟩
  intro now
  rw [← stored, kvsHashForeach_eq]
  exact ⟨ok.distinct_entries.sublist (List.filter_sublist.map _),
    fun entry => mem_unexpired_contents ok.distinct_entries⟩

/-- One key more than the fresh table has buckets, then one with a longer
value, one that has expired and one that is deleted. -/
def mixedRun : List (Operation × Bool) :=
  (List.range 17).map (fun index => (.set (serialKey index) [118] 5, false)) ++
    [(.set (serialKey 0) [118, 119, 120] 0, true),
      (.get 4 (serialKey 3), false),
      (.get 6 (serialKey 0), false),
      (.get 6 (serialKey 1), true),
      (.del (serialKey 1), false),
      (.del (serialKey 2), true)]

/-- The table grows, and the answers are those of the map. -/
theorem hashRun_refines_map_mixed :
    Along (hashStep true) HasRoom kvsHashCreate mixedRun ∧
      (run (hashStep true) kvsHashCreate mixedRun).1.maxSlots = 32 ∧
      (run (hashStep true) kvsHashCreate mixedRun).2.drop 17 =
        [.status 0, .value (some [118]), .value (some [118, 119, 120]),
          .value none, .status 1, .status 0] := by
  have room : Along (hashStep true) HasRoom kvsHashCreate mixedRun := by
    decide +kernel
  refine ⟨room, by decide +kernel, ?_⟩
  rw [(hashRun_refines_map true _ room).2.1]
  decide +kernel

/-! ## The table that cannot grow -/

/-- Set the first keys of the series. -/
def fillInputs (number : Nat) : List (Operation × Bool) :=
  (List.range number).map
    (fun index => (.set (serialKey index) [] 0, false))

theorem fillInputs_succ (number : Nat) :
    fillInputs (number + 1) =
      fillInputs number ++ [(.set (serialKey number) [] 0, false)] := by
  rw [fillInputs, List.range_succ, List.map_append]
  rfl

/-- The table that holds exactly the first keys of the series. -/
structure Filled (hash : KvsHash) (number : Nat) : Prop where
  ok : HashOk hash
  size : (nodes hash).length = number
  keys : ∀ node ∈ nodes hash, ∃ index, index < number ∧
    node.key = serialKey index

theorem filled_set {hash : KvsHash} {number : Nat}
    (filled : Filled hash number) (room : number < slotLimit) :
    Filled (kvsHashSet hash (serialKey number) 0 [] 0).1 (number + 1) := by
  obtain ⟨grown, growth, grownOk, moved, space⟩ :=
    growIfFull_ok filled.ok (by rw [filled.size]; exact room)
  have keys : ∀ node ∈ nodes grown, ∃ index, index < number ∧
      node.key = serialKey index :=
    fun node member => filled.keys node (moved.mem_iff.mp member)
  have absent : others (serialKey number) (nodes grown) = nodes grown := by
    apply others_eq_self
    intro node member same
    obtain ⟨index, below, key⟩ := keys node member
    rw [slotLimit] at room
    have equal := serialKey_injective (by omega) (by omega)
      (key.symm.trans same)
    omega
  obtain ⟨after, perm, _⟩ := kvsHashSet_bucket grownOk space growth
    (show CacheOk (serialKey number) 0 from Or.inl rfl) [] 0
  rw [absent] at perm
  refine ⟨after, ?_, ?_⟩
  · rw [perm.length_eq, List.length_append, moved.length_eq, filled.size,
      List.length_singleton, Nat.add_comm]
  · intro node member
    rcases List.mem_append.mp (perm.mem_iff.mp member) with here | there
    · rw [List.mem_singleton.mp here]
      exact ⟨number, Nat.lt_succ_self _, rfl⟩
    · obtain ⟨index, below, key⟩ := keys node there
      exact ⟨index, Nat.lt_succ_of_lt below, key⟩

theorem filled_run (enableTtl : Bool) {number : Nat}
    (room : number ≤ slotLimit) :
    Filled (run (hashStep enableTtl) kvsHashCreate (fillInputs number)).1
      number := by
  induction number with
  | zero =>
      refine ⟨hashOk_create, rfl, ?_⟩
      intro node member
      exact absurd member List.not_mem_nil
  | succ number induction =>
      rw [fillInputs_succ, run_append]
      exact filled_set (induction (Nat.le_of_succ_le room)) room

theorem fill_refused {number : Nat} (full : number = slotLimit) :
    (run (hashStep false) kvsHashCreate (fillInputs (number + 1))).2 ≠
      (run (mapStep false) Contents.empty (fillInputs (number + 1))).2 := by
  obtain ⟨ok, size, _⟩ := filled_run false full.le
  have refused :=
    kvsHashSet_full ok (size.trans full) (serialKey number) 0 [] 0
  rw [fillInputs_succ, run_append, run_append]
  intro same
  have last := congrArg List.getLast? same
  simp only [run, hashStep, mapStep, Contents.step, cacheOf,
    Bool.false_eq_true, if_false, List.getLast?_append,
    List.getLast?_singleton, Option.some_or, Option.some.injEq,
    Answer.status.injEq, refused] at last
  exact absurd last (by decide)

/-- After `2 ^ 30` keys the next one is refused, where the map takes it. -/
theorem hashRun_overflow :
    (run (hashStep false) kvsHashCreate (fillInputs (slotLimit + 1))).2 ≠
      (run (mapStep false) Contents.empty (fillInputs (slotLimit + 1))).2 :=
  fill_refused rfl

end Kivo.Engine.HashRuns
