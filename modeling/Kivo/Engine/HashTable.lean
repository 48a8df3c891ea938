import Kivo.Clib.Slots
import Kivo.Engine.HashEngine
import Kivo.Engine.KeyMap

/-!
# The invariant of the hash engine

A valid table has a power of two of buckets, every node lies in the bucket
that its cached hash names, the cached hashes are the true ones, no key occurs
twice and the counter is right.  Resizing only moves nodes.  Setting, deleting
and looking up a key concern the one bucket of the key, and on the whole table
they are the operations of the map that the engine stands for.
-/

namespace Kivo.Engine.HashTable

open Kivo.Clib.Memory
open Kivo.Clib.Slots
open Kivo.Clib.SortedList
open Kivo.Engine.Data
open Kivo.Engine.HashEngine
open Kivo.Engine.KeyMap

/-! ## The invariant -/

/-- The nodes, bucket by bucket. -/
def nodes (hash : KvsHash) : List HashNode :=
  hash.buckets.flatten

/-- The bucket of a node in a table of some size. -/
def slotOf (slots : Nat) (node : HashNode) : Nat :=
  node.hashCache.toNat &&& (slots - 1)

/-- The largest power of two that `max_slots` can hold. -/
def slotLimit : Nat := 2 ^ 30

/-- A table in a consistent state. -/
structure HashOk (hash : KvsHash) : Prop where
  power : ∃ exponent, hash.maxSlots = 2 ^ exponent
  least : initHashSlots ≤ hash.maxSlots
  most : hash.maxSlots ≤ slotLimit
  placed : PlacedFrom (slotOf hash.maxSlots) 0 hash.buckets
  cached : ∀ node ∈ nodes hash, node.hashCache = kvHashShort node.key
  distinct : ((nodes hash).map HashNode.key).Nodup
  count : hash.count = (nodes hash).length
  load : (nodes hash).length ≤ hash.maxSlots

theorem slotOf_lt {slots : Nat} (positive : 0 < slots) (node : HashNode) :
    slotOf slots node < slots := by
  have limit := @Nat.and_le_right node.hashCache.toNat (slots - 1)
  rw [slotOf]
  omega

theorem HashOk.positive {hash : KvsHash} (ok : HashOk hash) :
    0 < hash.maxSlots :=
  Nat.lt_of_lt_of_le (by decide) ok.least

theorem hashOk_create : HashOk kvsHashCreate := by
  have size : kvsHashCreate.maxSlots = initHashSlots := List.length_replicate
  have empty : nodes kvsHashCreate = [] := by decide
  refine ⟨⟨4, size⟩, size.ge, ?_, ?_, ?_, ?_, ?_, ?_⟩
  · rw [size]
    decide
  · exact placedFrom_replicate _ _
  · rw [empty]
    intro node member
    exact absurd member List.not_mem_nil
  · rw [empty]
    exact List.nodup_nil
  · rw [empty]
    rfl
  · rw [empty]
    exact Nat.zero_le _

/-! ## Resizing -/

/-- Resizing moves the nodes and keeps everything else. -/
theorem kvsHashResize_ok {hash : KvsHash} (ok : HashOk hash)
    {newSlots : Nat} (power : ∃ exponent, newSlots = 2 ^ exponent)
    (least : initHashSlots ≤ newSlots) (most : newSlots ≤ slotLimit)
    (room : (nodes hash).length ≤ newSlots) :
    ∃ after, kvsHashResize hash newSlots = some after ∧ HashOk after ∧
      (nodes after).Perm (nodes hash) ∧ after.maxSlots = newSlots := by
  have positive : 0 < newSlots := Nat.lt_of_lt_of_le (by decide) least
  obtain ⟨placed, length, perm⟩ :=
    @fill_spec _ (slotOf newSlots) (List.replicate newSlots []) (nodes hash)
      (placedFrom_replicate _ _)
      (fun node _ => by
        rw [List.length_replicate]
        exact slotOf_lt positive node)
  have moved : (fill (slotOf newSlots) (List.replicate newSlots [])
      (nodes hash)).flatten.Perm (nodes hash) := by
    have empty : (List.replicate newSlots ([] : List HashNode)).flatten =
        [] := by
      simp
    rw [empty, List.nil_append] at perm
    exact perm
  rw [List.length_replicate] at length
  have enough : ¬ (newSlots : Int) < initHashSlots := by omega
  refine ⟨{ hash with
    buckets := fill (slotOf newSlots) (List.replicate newSlots [])
      (nodes hash) }, ?_, ⟨?_, ?_, ?_, ?_, ?_, ?_, ?_, ?_⟩, moved, length⟩
  · rw [kvsHashResize, if_neg enough, Int.toNat_natCast]
    rfl
  · rw [KvsHash.maxSlots, length]
    exact power
  · rw [KvsHash.maxSlots, length]
    exact least
  · rw [KvsHash.maxSlots, length]
    exact most
  · rw [KvsHash.maxSlots, length]
    exact placed
  · intro node member
    exact ok.cached node (moved.mem_iff.mp member)
  · exact (moved.map HashNode.key).nodup_iff.mpr ok.distinct
  · exact ok.count.trans (congrArg Nat.cast moved.length_eq.symm)
  · rw [KvsHash.maxSlots, length]
    exact moved.length_eq.trans_le room

/-- A full table can double as long as the new size is an `int`. -/
theorem growIfFull_ok {hash : KvsHash} (ok : HashOk hash)
    (room : (nodes hash).length < slotLimit) :
    ∃ grown, growIfFull hash = some grown ∧ HashOk grown ∧
      (nodes grown).Perm (nodes hash) ∧
      (nodes grown).length < grown.maxSlots := by
  rw [growIfFull, ok.count]
  by_cases full : (hash.maxSlots : Int) ≤ (nodes hash).length
  · obtain ⟨exponent, size⟩ := ok.power
    have low : exponent < 30 := by
      by_contra high
      have large : 2 ^ 30 ≤ 2 ^ exponent :=
        Nat.pow_le_pow_right (by decide) (not_lt.mp high)
      rw [slotLimit] at room
      omega
    have double : 2 ^ (exponent + 1) ≤ 2 ^ 30 :=
      Nat.pow_le_pow_right (by decide) low
    have next : hash.maxSlots * 2 = 2 ^ (exponent + 1) := by
      rw [size, Nat.pow_succ]
    have narrow : toInt32 (hash.maxSlots * 2) =
        ((hash.maxSlots * 2 : Nat) : Int) := by
      rw [toInt32_of_range]
      · push_cast
        rfl
      · omega
      · omega
    have least := ok.least
    have load := ok.load
    obtain ⟨after, shape, after_ok, perm, slots⟩ :=
      kvsHashResize_ok ok ⟨exponent + 1, next⟩ (by omega)
        (by rw [slotLimit]; omega) (by omega)
    refine ⟨after, ?_, after_ok, perm, ?_⟩
    · rw [if_pos full, narrow]
      exact shape
    · rw [perm.length_eq, slots]
      have positive := ok.positive
      omega
  · exact ⟨hash, if_neg full, ok, List.Perm.refl _, by omega⟩

/-- A table of the largest size cannot grow. -/
theorem growIfFull_none {hash : KvsHash} (ok : HashOk hash)
    (full : (nodes hash).length = slotLimit) :
    growIfFull hash = none := by
  have load := ok.load
  have most := ok.most
  have size : hash.maxSlots = slotLimit := by omega
  have wrapped : toInt32 ((slotLimit : Nat) * 2) = -2 ^ 31 := by decide
  rw [growIfFull, ok.count, full, size, if_pos (Int.le_refl _), wrapped]
  rfl

/-- The shrinking step keeps the table valid and its free places. -/
theorem shrinkIfSparse_ok {hash : KvsHash} (ok : HashOk hash) :
    HashOk (shrinkIfSparse hash) ∧
      (nodes (shrinkIfSparse hash)).Perm (nodes hash) ∧
      ((nodes hash).length < hash.maxSlots →
        (nodes (shrinkIfSparse hash)).length <
          (shrinkIfSparse hash).maxSlots) := by
  rw [shrinkIfSparse]
  split_ifs with sparse
  · obtain ⟨exponent, size⟩ := ok.power
    obtain ⟨few, large⟩ := sparse
    rw [ok.count] at few
    rw [initHashSlots] at large
    cases exponent with
    | zero =>
        rw [size] at large
        omega
    | succ exponent =>
        have half : hash.maxSlots / 2 = 2 ^ exponent := by
          rw [size, Nat.pow_succ]
          omega
        have least : initHashSlots ≤ hash.maxSlots / 2 := by
          have grows : 2 ^ 4 < 2 ^ (exponent + 1) := by
            rw [← size]
            exact large
          have above : 4 < exponent + 1 :=
            (Nat.pow_lt_pow_iff_right (by decide)).mp grows
          rw [half]
          exact Nat.pow_le_pow_right Nat.two_pos (Nat.le_of_lt_succ above)
        have most := ok.most
        obtain ⟨after, shape, after_ok, perm, slots⟩ :=
          kvsHashResize_ok ok ⟨exponent, half⟩ least (by omega) (by omega)
        rw [shape]
        refine ⟨after_ok, perm, fun _ => ?_⟩
        rw [Option.getD_some, perm.length_eq, slots]
        omega
  · exact ⟨ok, List.Perm.refl _, id⟩

/-! ## One bucket -/

/-- The entries of the nodes, bucket by bucket. -/
def entries (hash : KvsHash) : List Entry :=
  (nodes hash).map HashNode.entry

/-- The nodes with another key. -/
def others (key : Bytes) (nodes : List HashNode) : List HashNode :=
  nodes.filter (fun node => !node.hasKey key)

theorem hasKey_iff {key : Bytes} {node : HashNode} :
    node.hasKey key = true ↔ node.key = key := by
  rw [HashNode.hasKey, beq_iff_eq, kvDataCompare_eq_iff]

theorem hasKey_false_iff {key : Bytes} {node : HashNode} :
    node.hasKey key = false ↔ node.key ≠ key := by
  rw [← Bool.not_eq_true, hasKey_iff]

theorem others_append (key : Bytes) (first second : List HashNode) :
    others key (first ++ second) = others key first ++ others key second :=
  List.filter_append ..

theorem others_eq_self {key : Bytes} {nodes : List HashNode}
    (apart : ∀ node ∈ nodes, node.key ≠ key) :
    others key nodes = nodes := by
  rw [others, List.filter_eq_self]
  intro node member
  rw [hasKey_false_iff.mpr (apart node member)]
  rfl

/-- The entries of the other nodes are those with the key erased. -/
theorem others_entries (key : Bytes) (nodes : List HashNode) :
    (others key nodes).map HashNode.entry =
      erase kvDataCompare Entry.key (nodes.map HashNode.entry) key := by
  rw [others, erase, List.filter_map]
  rfl

theorem HashOk.distinct_entries {hash : KvsHash} (ok : HashOk hash) :
    ((entries hash).map Entry.key).Nodup := by
  rw [entries, List.map_map]
  exact ok.distinct

/-- A hash cache that is empty or right. -/
def CacheOk (key : Bytes) (hashCache : UInt64) : Prop :=
  hashCache = 0 ∨ hashCache = kvHashShort key

theorem kvDataHashCalc_eq {key : Bytes} {hashCache : UInt64}
    (cache : CacheOk key hashCache) :
    kvDataHashCalc key hashCache = kvHashShort key := by
  rw [kvDataHashCalc]
  split_ifs with filled
  · exact cache.resolve_left filled
  · rfl

theorem kvDataHash_eq {key : Bytes} {hashCache : UInt64}
    (cache : CacheOk key hashCache) (size : Nat) :
    kvDataHash key hashCache size =
      (kvHashShort key).toNat &&& (size - 1) := by
  rw [kvDataHash, kvDataHashCalc_eq cache]

/-- The bucket of a key, with the buckets around it. -/
theorem HashOk.exists_bucket {hash : KvsHash} (ok : HashOk hash)
    (key : Bytes) :
    ∃ front bucket back, hash.buckets = front ++ bucket :: back ∧
      front.length = (kvHashShort key).toNat &&& (hash.maxSlots - 1) ∧
      ∀ node ∈ front.flatten ++ back.flatten, node.key ≠ key := by
  have inside := @kvDataHash_lt key 0 _ ok.positive
  obtain ⟨front, bucket, back, split, position⟩ := exists_split inside
  have slot : front.length =
      (kvHashShort key).toNat &&& (hash.maxSlots - 1) :=
    position.trans (kvDataHash_eq (Or.inl rfl) _)
  refine ⟨front, bucket, back, split, slot, ?_⟩
  intro node member same
  have placed := ok.placed
  rw [split] at placed
  have member' : node ∈ nodes hash := by
    rw [nodes, split, List.flatten_append, List.flatten_cons]
    rw [List.mem_append] at member ⊢
    rw [List.mem_append]
    exact member.imp id Or.inr
  apply placedFrom_apart placed member
  rw [slotOf, ok.cached node member', same, slot]

section Bucket

variable {hash : KvsHash} {front back : List (List HashNode)}
    {bucket new added : List HashNode} {key : Bytes}

/-- The nodes of a table with a new bucket. -/
theorem nodes_replace
    (apart : ∀ node ∈ front.flatten ++ back.flatten, node.key ≠ key)
    (perm : new.Perm (added ++ others key bucket)) :
    (front ++ new :: back).flatten.Perm
      (added ++ others key (front ++ bucket :: back).flatten) := by
  have first : others key front.flatten = front.flatten :=
    others_eq_self (fun node member =>
      apart node (List.mem_append.mpr (Or.inl member)))
  have last : others key back.flatten = back.flatten :=
    others_eq_self (fun node member =>
      apart node (List.mem_append.mpr (Or.inr member)))
  rw [List.flatten_append, List.flatten_append, List.flatten_cons,
    List.flatten_cons, others_append, others_append, first, last]
  have middle := (perm.append_right back.flatten).append_left front.flatten
  rw [List.append_assoc] at middle
  refine middle.trans ?_
  rw [← List.append_assoc, ← List.append_assoc added]
  exact List.perm_append_comm.append_right _

/-- A bucket whose nodes with the key are replaced keeps the table valid. -/
theorem HashOk.replace (ok : HashOk hash)
    (split : hash.buckets = front ++ bucket :: back)
    (position : front.length =
      (kvHashShort key).toNat &&& (hash.maxSlots - 1))
    (apart : ∀ node ∈ front.flatten ++ back.flatten, node.key ≠ key)
    (perm : new.Perm (added ++ others key bucket))
    (single : added.length ≤ 1)
    (fresh : ∀ node ∈ added, node.key = key ∧
      node.hashCache = kvHashShort key)
    {count : Int} (counted : count + bucket.length = hash.count + new.length)
    (room : (nodes hash).length + new.length ≤
      hash.maxSlots + bucket.length) :
    HashOk { buckets := front ++ new :: back, count := count } ∧
      (nodes { buckets := front ++ new :: back, count := count }).Perm
        (added ++ others key (nodes hash)) := by
  have total : (front ++ new :: back).flatten.Perm
      (added ++ others key (nodes hash)) := by
    rw [nodes, split]
    exact nodes_replace apart perm
  have size : (KvsHash.maxSlots
      { buckets := front ++ new :: back, count := count }) =
        hash.maxSlots := by
    rw [KvsHash.maxSlots, KvsHash.maxSlots, split]
    simp
  have cached : ∀ node ∈ (front ++ new :: back).flatten,
      node.hashCache = kvHashShort node.key := by
    intro node member
    rcases List.mem_append.mp (total.mem_iff.mp member) with here | there
    · rw [(fresh node here).1]
      exact (fresh node here).2
    · exact ok.cached node (List.mem_filter.mp there).1
  have before : (nodes hash).length =
      front.flatten.length + (bucket.length + back.flatten.length) := by
    rw [nodes, split, List.flatten_append, List.flatten_cons,
      List.length_append, List.length_append]
  have after : (front ++ new :: back).flatten.length =
      front.flatten.length + (new.length + back.flatten.length) := by
    rw [List.flatten_append, List.flatten_cons, List.length_append,
      List.length_append]
  have counter := ok.count
  refine ⟨⟨?_, ?_, ?_, ?_, cached, ?_, ?_, ?_⟩, total⟩
  · rw [size]
    exact ok.power
  · rw [size]
    exact ok.least
  · rw [size]
    exact ok.most
  · rw [size]
    have placed := ok.placed
    rw [split] at placed
    refine placedFrom_replace placed ?_
    intro node member
    rcases List.mem_append.mp (perm.mem_iff.mp member) with here | there
    · rw [slotOf, (fresh node here).2, position]
    · rw [placedFrom_append, Nat.zero_add] at placed
      exact placed.2.1 node (List.mem_filter.mp there).1
  · refine (total.map HashNode.key).nodup_iff.mpr ?_
    rw [List.map_append, List.nodup_append]
    refine ⟨?_, ?_, ?_⟩
    · refine List.Nodup.sublist (List.Sublist.refl _) ?_
      cases added with
      | nil => exact List.nodup_nil
      | cons node rest =>
          obtain rfl : rest = [] := by simpa using single
          exact List.nodup_singleton _
    · exact ok.distinct.sublist (List.filter_sublist.map _)
    · intro first inFirst second inSecond same
      obtain ⟨node, member, rfl⟩ := List.mem_map.mp inFirst
      obtain ⟨other, member', rfl⟩ := List.mem_map.mp inSecond
      have miss := (List.mem_filter.mp member').2
      rw [Bool.not_eq_true', hasKey_false_iff] at miss
      exact miss (same.symm.trans (fresh node member).1)
  · rw [nodes]
    dsimp only
    omega
  · rw [size, nodes]
    dsimp only
    omega

end Bucket

/-! ## Looking into the bucket -/

theorem bucket_absent {key : Bytes} {bucket : List HashNode}
    (missing : bucket.findIdx? (HashNode.hasKey key) = none) :
    others key bucket = bucket := by
  apply others_eq_self
  intro node member
  exact hasKey_false_iff.mp (List.findIdx?_eq_none_iff.mp missing node member)

/-- The one node of a bucket with the key. -/
theorem bucket_found {key : Bytes} {bucket : List HashNode} {index : Nat}
    (distinct : (bucket.map HashNode.key).Nodup)
    (found : bucket.findIdx? (HashNode.hasKey key) = some index) :
    ∃ first node last, bucket = first ++ node :: last ∧
      first.length = index ∧ node.key = key ∧
      others key bucket = first ++ last := by
  obtain ⟨first, node, last, rfl, position, hit, earlier⟩ :=
    findIdx?_split found
  have same := hasKey_iff.mp hit
  refine ⟨first, node, last, rfl, position, same, ?_⟩
  have ahead : others key first = first :=
    others_eq_self (fun other member =>
      hasKey_false_iff.mp (earlier other member))
  have behind : others key last = last := by
    apply others_eq_self
    intro other member equal
    rw [List.map_append, List.map_cons, List.nodup_append,
      List.nodup_cons] at distinct
    apply distinct.2.1.1
    rw [same, ← equal]
    exact List.mem_map_of_mem member
  rw [others_append, ahead, others, List.filter_cons_of_neg (by simp [hit]),
    ← others, behind]

theorem HashOk.distinct_bucket {hash : KvsHash} (ok : HashOk hash)
    {front back : List (List HashNode)} {bucket : List HashNode}
    (split : hash.buckets = front ++ bucket :: back) :
    (bucket.map HashNode.key).Nodup := by
  refine ok.distinct.sublist (List.Sublist.map _ ?_)
  rw [nodes, split, List.flatten_append, List.flatten_cons]
  exact (List.sublist_append_left _ _).trans (List.sublist_append_right _ _)

theorem contents_moved {before after : KvsHash} (ok : HashOk after)
    (perm : (nodes after).Perm (nodes before)) :
    contents (entries after) = contents (entries before) :=
  contents_perm (perm.map HashNode.entry) ok.distinct_entries

theorem contents_replaced {before after : KvsHash} {key : Bytes}
    {node : HashNode} (ok : HashOk after) (same : node.key = key)
    (perm : (nodes after).Perm ([node] ++ others key (nodes before))) :
    contents (entries after) =
      (contents (entries before)).set key (item node.entry) := by
  rw [entries, contents_perm (perm.map HashNode.entry) ok.distinct_entries,
    List.map_append, others_entries, ← same]
  exact contents_cons_erase (entries before) node.entry

theorem contents_removed {before after : KvsHash} {key : Bytes}
    (ok : HashOk after)
    (perm : (nodes after).Perm (others key (nodes before))) :
    contents (entries after) = (contents (entries before)).erase key := by
  rw [entries, contents_perm (perm.map HashNode.entry) ok.distinct_entries,
    others_entries]
  exact contents_erase (entries before) key

/-! ## Setting -/

/-- The node of a key that is set. -/
def freshNode (key value : Bytes) (expireTime : Int) : HashNode :=
  { key := key
    value := value
    hashCache := kvHashShort key
    expireTime := expireTime }

/-- The bucket of a key that is set: the node of the key is put in front,
changed in place or replaced. -/
theorem kvsHashSet_bucket {grown : KvsHash} (ok : HashOk grown)
    (space : (nodes grown).length < grown.maxSlots) {hash : KvsHash}
    (growth : growIfFull hash = some grown) {key : Bytes}
    {hashCache : UInt64} (cache : CacheOk key hashCache) (value : Bytes)
    (expireTime : Int) :
    HashOk (kvsHashSet hash key hashCache value expireTime).1 ∧
      (nodes (kvsHashSet hash key hashCache value expireTime).1).Perm
        ([freshNode key value expireTime] ++ others key (nodes grown)) ∧
      (kvsHashSet hash key hashCache value expireTime).2 = 0 := by
  obtain ⟨front, bucket, back, split, position, apart⟩ :=
    ok.exists_bucket key
  have slot : grown.buckets[kvDataHash key hashCache grown.maxSlots]? =
      some bucket := by
    rw [kvDataHash_eq cache, ← position, split]
    exact getElem?_split front bucket back
  have store : ∀ new, grown.buckets.set
      (kvDataHash key hashCache grown.maxSlots) new =
        front ++ new :: back := by
    intro new
    rw [kvDataHash_eq cache, ← position, split]
    exact set_split front bucket back new
  have replaced : ∀ (new : List HashNode) (count : Int),
      new.Perm ([freshNode key value expireTime] ++ others key bucket) →
      count + bucket.length = grown.count + new.length →
      new.length ≤ bucket.length + 1 →
      HashOk { buckets := front ++ new :: back, count := count } ∧
        (nodes { buckets := front ++ new :: back, count := count }).Perm
          ([freshNode key value expireTime] ++ others key (nodes grown)) := by
    intro new count perm counted small
    refine ok.replace split position apart perm (Nat.le_refl 1) ?_ counted
      (by omega)
    intro node member
    rw [List.mem_singleton.mp member]
    exact ⟨rfl, rfl⟩
  rw [kvsHashSet, growth]
  dsimp only
  rw [slot, kvDataHashCalc_eq cache]
  dsimp only
  cases search : bucket.findIdx? (HashNode.hasKey key) with
  | none =>
      dsimp only
      rw [store]
      obtain ⟨after, perm⟩ := replaced
        (freshNode key value expireTime :: bucket) (grown.count + 1)
        (by rw [bucket_absent search]; rfl)
        (by rw [List.length_cons]; push_cast; ring) (Nat.le_refl _)
      exact ⟨after, perm, rfl⟩
  | some index =>
      obtain ⟨first, node, last, rfl, rfl, same, rest⟩ :=
        bucket_found (ok.distinct_bucket split) search
      have changed : { node with value := value, expireTime := expireTime } =
          freshNode key value expireTime := by
        have cached : node.hashCache = kvHashShort node.key := by
          apply ok.cached
          rw [nodes, split]
          simp
        rw [freshNode, cached, same]
      dsimp only
      rw [getElem?_split, modify_split, eraseIdx_split, changed]
      simp only [Option.any_some, decide_eq_true_eq]
      by_cases fits : value.length ≤ node.value.length
      · rw [if_pos fits, store]
        obtain ⟨after, perm⟩ := replaced
          (first ++ freshNode key value expireTime :: last) grown.count
          (by rw [rest]; exact List.perm_middle) (by simp) (by simp)
        exact ⟨after, perm, rfl⟩
      · rw [if_neg fits, store]
        obtain ⟨after, perm⟩ := replaced
          (freshNode key value expireTime :: (first ++ last))
          (grown.count - 1 + 1) (by rw [rest]; rfl) (by simp; ring) (by simp)
        exact ⟨after, perm, rfl⟩

/-- `kvs_hash_set` sets the key while the table can grow. -/
theorem kvsHashSet_contents {hash : KvsHash} (ok : HashOk hash)
    (room : (nodes hash).length < slotLimit) {key : Bytes}
    {hashCache : UInt64} (cache : CacheOk key hashCache) (value : Bytes)
    (expireTime : Int) :
    HashOk (kvsHashSet hash key hashCache value expireTime).1 ∧
      contents (entries (kvsHashSet hash key hashCache value expireTime).1) =
        (contents (entries hash)).set key
          { value := value, expireTime := expireTime } ∧
      (kvsHashSet hash key hashCache value expireTime).2 = 0 := by
  obtain ⟨grown, growth, grown_ok, moved, space⟩ := growIfFull_ok ok room
  obtain ⟨after, perm, status⟩ :=
    kvsHashSet_bucket grown_ok space growth cache value expireTime
  refine ⟨after, ?_, status⟩
  rw [contents_replaced after rfl perm, contents_moved grown_ok moved]
  rfl

/-- A table of the largest size refuses every key. -/
theorem kvsHashSet_full {hash : KvsHash} (ok : HashOk hash)
    (full : (nodes hash).length = slotLimit) (key : Bytes)
    (hashCache : UInt64) (value : Bytes) (expireTime : Int) :
    kvsHashSet hash key hashCache value expireTime = (hash, -1) := by
  rw [kvsHashSet, growIfFull_none ok full]

/-! ## Deleting and reading -/

/-- The search finds the entry of the key. -/
theorem hashFind_contents {hash : KvsHash} (ok : HashOk hash) {key : Bytes}
    {hashCache : UInt64} (cache : CacheOk key hashCache) :
    (hashFind hash key hashCache).map (fun node => item node.entry) =
      contents (entries hash) key := by
  obtain ⟨front, bucket, back, split, position, apart⟩ :=
    ok.exists_bucket key
  have miss : ∀ buckets : List (List HashNode),
      (∀ node ∈ buckets.flatten, node.key ≠ key) →
        buckets.flatten.find? (HashNode.hasKey key) = none := by
    intro buckets different
    rw [List.find?_eq_none]
    intro node member
    rw [hasKey_false_iff.mpr (different node member)]
    exact Bool.false_ne_true
  have whole : (nodes hash).find? (HashNode.hasKey key) =
      bucket.find? (HashNode.hasKey key) := by
    rw [nodes, split, List.flatten_append, List.flatten_cons,
      List.find?_append, List.find?_append,
      miss front (fun node member =>
        apart node (List.mem_append.mpr (Or.inl member))),
      miss back (fun node member =>
        apart node (List.mem_append.mpr (Or.inr member))),
      Option.none_or, Option.or_none]
  have found : hashFind hash key hashCache =
      (nodes hash).find? (HashNode.hasKey key) := by
    rw [hashFind, kvDataHash_eq cache, ← position, split, getElem?_split,
      whole]
    rfl
  rw [found, contents, entries, lookup_map, Option.map_map]
  rfl

/-- The table without the node of a key. -/
def unlinked (hash : KvsHash) (slot index : Nat) (bucket : List HashNode) :
    KvsHash :=
  { buckets := hash.buckets.set slot (bucket.eraseIdx index)
    count := hash.count - 1 }

/-- Unlinking the node of a key keeps the table valid and makes room. -/
theorem unlinked_ok {hash : KvsHash} (ok : HashOk hash) {key : Bytes}
    {hashCache : UInt64} (cache : CacheOk key hashCache)
    {bucket : List HashNode}
    (slot : hash.buckets[kvDataHash key hashCache hash.maxSlots]? =
      some bucket) {index : Nat}
    (hit : bucket.findIdx? (HashNode.hasKey key) = some index) :
    HashOk (unlinked hash (kvDataHash key hashCache hash.maxSlots) index
        bucket) ∧
      (nodes (unlinked hash (kvDataHash key hashCache hash.maxSlots) index
        bucket)).Perm (others key (nodes hash)) ∧
      (nodes (unlinked hash (kvDataHash key hashCache hash.maxSlots) index
        bucket)).length <
        (unlinked hash (kvDataHash key hashCache hash.maxSlots) index
          bucket).maxSlots := by
  obtain ⟨front, same_bucket, back, split, position, apart⟩ :=
    ok.exists_bucket key
  have here : hash.buckets[kvDataHash key hashCache hash.maxSlots]? =
      some same_bucket := by
    rw [kvDataHash_eq cache, ← position, split]
    exact getElem?_split front same_bucket back
  obtain rfl : same_bucket = bucket := Option.some.inj (here.symm.trans slot)
  obtain ⟨first, node, last, rfl, rfl, same, rest⟩ :=
    bucket_found (ok.distinct_bucket split) hit
  have load := ok.load
  obtain ⟨after, perm⟩ := @HashOk.replace hash front back
    (first ++ node :: last) (first ++ last) [] key ok split position
    apart (by rw [rest]; exact List.Perm.refl _) (Nat.zero_le _)
    (fun _ member => absurd member List.not_mem_nil) (hash.count - 1)
    (by simp; ring) (by simp; omega)
  have shape : unlinked hash (kvDataHash key hashCache hash.maxSlots)
      first.length (first ++ node :: last) =
      { buckets := front ++ (first ++ last) :: back
        count := hash.count - 1 } := by
    rw [unlinked, eraseIdx_split, kvDataHash_eq cache, ← position, split,
      set_split]
  have slots : KvsHash.maxSlots
      { buckets := front ++ (first ++ last) :: back
        count := hash.count - 1 } = hash.maxSlots := by
    rw [KvsHash.maxSlots, KvsHash.maxSlots, split]
    simp
  rw [shape]
  refine ⟨after, perm, ?_⟩
  have counted := after.count
  have before := ok.count
  dsimp only at counted
  rw [slots]
  omega

/-- `kvs_hash_del` erases the key. -/
theorem kvsHashDel_contents {hash : KvsHash} (ok : HashOk hash)
    {key : Bytes} {hashCache : UInt64} (cache : CacheOk key hashCache) :
    HashOk (kvsHashDel hash key hashCache).1 ∧
      contents (entries (kvsHashDel hash key hashCache).1) =
        (contents (entries hash)).erase key ∧
      (kvsHashDel hash key hashCache).2 =
        if (contents (entries hash) key).isSome then 0 else 1 := by
  have search := hashFind_contents ok cache
  obtain ⟨front, bucket, back, split, position, apart⟩ :=
    ok.exists_bucket key
  have slot : hash.buckets[kvDataHash key hashCache hash.maxSlots]? =
      some bucket := by
    rw [kvDataHash_eq cache, ← position, split]
    exact getElem?_split front bucket back
  have found : hashFind hash key hashCache =
      (bucket.findIdx? (HashNode.hasKey key)).bind
        (fun index => bucket[index]?) := by
    rw [hashFind, slot, Option.bind_some,
      List.find?_eq_bind_findIdx?_getElem?]
  rw [← search, found, kvsHashDel, slot]
  dsimp only
  cases hit : bucket.findIdx? (HashNode.hasKey key) with
  | none =>
      refine ⟨ok, ?_, rfl⟩
      refine contents_removed ok ?_
      have same := @nodes_replace front back bucket bucket [] key apart
        (by rw [bucket_absent hit]; exact List.Perm.refl _)
      rw [List.nil_append] at same
      rw [nodes, split]
      exact same
  | some index =>
      obtain ⟨after, perm, -⟩ := unlinked_ok ok cache slot hit
      obtain ⟨shrunk, moved, -⟩ := shrinkIfSparse_ok after
      refine ⟨shrunk, contents_removed shrunk (moved.trans perm), ?_⟩
      obtain ⟨first, node, last, rfl, rfl, -, -⟩ :=
        bucket_found (ok.distinct_bucket split) hit
      rw [Option.bind_some, getElem?_split]
      rfl

end Kivo.Engine.HashTable
