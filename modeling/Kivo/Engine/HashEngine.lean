import Kivo.Engine.Data

/-!
# The hash engine

`kvs_hash.c` is a chained hash table whose number of buckets is doubled when
the load factor reaches one and halved when it falls below a quarter.  A node
remembers the hash of its key, so resizing computes no hashes.  A value is
overwritten in place when it fits; otherwise the node is replaced by a new one
at the head of its bucket.
-/

namespace Kivo.Engine.HashEngine

open Kivo.Clib.Memory
open Kivo.Engine.Data

/-! ## State -/

/-- `INIT_HASH_SLOTS`. -/
def initHashSlots : Nat := 16

/-- `hashnode_t`. -/
structure HashNode where
  key : Bytes
  value : Bytes
  hashCache : UInt64
  expireTime : Int
deriving DecidableEq, Repr

/-- `hashtable_t`; `max_slots` is the number of buckets. -/
structure KvsHash where
  buckets : List (List HashNode)
  count : Int
deriving DecidableEq, Repr

/-- `max_slots`. -/
def KvsHash.maxSlots (hash : KvsHash) : Nat :=
  hash.buckets.length

/-- The table after `kvs_hash_create`. -/
def kvsHashCreate : KvsHash :=
  { buckets := List.replicate initHashSlots []
    count := 0 }

/-! ## Resizing -/

/-- Hang a node into its bucket of the new table. -/
def rehashNode (slots : Nat) (buckets : List (List HashNode))
    (node : HashNode) : List (List HashNode) :=
  buckets.modify (node.hashCache.toNat &&& (slots - 1))
    (fun bucket => node :: bucket)

/-- `kvs_hash_resize`; `none` is the return value `-1`. -/
def kvsHashResize (hash : KvsHash) (newSlots : Int) : Option KvsHash :=
  if newSlots < initHashSlots then none
  else
    some
      { hash with
        buckets := hash.buckets.flatten.foldl (rehashNode newSlots.toNat)
          (List.replicate newSlots.toNat []) }

/-! ## Operations -/

/-- The key test of the bucket loops. -/
def HashNode.hasKey (key : Bytes) (node : HashNode) : Bool :=
  kvDataCompare node.key key == .eq

/-- The growth step in front of an insertion. -/
def growIfFull (hash : KvsHash) : Option KvsHash :=
  if hash.maxSlots ≤ hash.count then
    kvsHashResize hash (toInt32 (hash.maxSlots * 2))
  else some hash

/-- `kvs_hash_set`, with its return value. -/
def kvsHashSet (hash : KvsHash) (key : Bytes) (hashCache : UInt64)
    (value : Bytes) (expireTime : Int) : KvsHash × Int :=
  match growIfFull hash with
  | none => (hash, -1)
  | some grown =>
      let slot := kvDataHash key hashCache grown.maxSlots
      let node : HashNode :=
        { key := key
          value := value
          hashCache := kvDataHashCalc key hashCache
          expireTime := expireTime }
      match grown.buckets[slot]? with
      | none => (grown, -1)
      | some bucket =>
          match bucket.findIdx? (HashNode.hasKey key) with
          | none =>
              ({ buckets := grown.buckets.set slot (node :: bucket)
                 count := grown.count + 1 }, 0)
          | some index =>
              let fits := (bucket[index]?).any
                (fun stored => decide (value.length ≤ stored.value.length))
              if fits then
                ({ grown with
                   buckets := grown.buckets.set slot
                     (bucket.modify index (fun stored =>
                       { stored with
                         value := value
                         expireTime := expireTime })) }, 0)
              else
                ({ buckets := grown.buckets.set slot
                     (node :: bucket.eraseIdx index)
                   count := grown.count - 1 + 1 }, 0)

/-- `kvs_hash_mod`. -/
def kvsHashMod (hash : KvsHash) (key : Bytes) (hashCache : UInt64)
    (value : Bytes) (expireTime : Int) : KvsHash × Int :=
  kvsHashSet hash key hashCache value expireTime

/-- The shrinking step behind a deletion. -/
def shrinkIfSparse (hash : KvsHash) : KvsHash :=
  if hash.count < hash.maxSlots / 4 ∧ initHashSlots < hash.maxSlots then
    (kvsHashResize hash ((hash.maxSlots / 2 : Nat) : Int)).getD hash
  else hash

/-- `kvs_hash_del`. -/
def kvsHashDel (hash : KvsHash) (key : Bytes) (hashCache : UInt64) :
    KvsHash × Int :=
  let slot := kvDataHash key hashCache hash.maxSlots
  match hash.buckets[slot]? with
  | none => (hash, -1)
  | some bucket =>
      match bucket.findIdx? (HashNode.hasKey key) with
      | none => (hash, 1)
      | some index =>
          (shrinkIfSparse
            { buckets := hash.buckets.set slot (bucket.eraseIdx index)
              count := hash.count - 1 }, 0)

/-- The node a key is found at. -/
def hashFind (hash : KvsHash) (key : Bytes) (hashCache : UInt64) :
    Option HashNode :=
  (hash.buckets[kvDataHash key hashCache hash.maxSlots]?).bind
    (fun bucket => bucket.find? (HashNode.hasKey key))

/-- `kvs_hash_get`, with the lazy deletion of a key whose time has passed. -/
def kvsHashGet (enableTtl : Bool) (now : Int) (hash : KvsHash) (key : Bytes)
    (hashCache : UInt64) : KvsHash × Option Bytes :=
  match hashFind hash key hashCache with
  | none => (hash, none)
  | some node =>
      if enableTtl ∧ 0 < node.expireTime ∧ node.expireTime < now then
        ((kvsHashDel hash key hashCache).1, none)
      else (hash, some node.value)

/-- `kvs_hash_exist`: the same search and the same lazy deletion, `0` for a key
that is there. -/
def kvsHashExist (enableTtl : Bool) (now : Int) (hash : KvsHash)
    (key : Bytes) (hashCache : UInt64) : KvsHash × Int :=
  match hashFind hash key hashCache with
  | none => (hash, 1)
  | some node =>
      if enableTtl ∧ 0 < node.expireTime ∧ node.expireTime < now then
        ((kvsHashDel hash key hashCache).1, 1)
      else (hash, 0)

/-- `kvs_hash_del_if_expired`. -/
def kvsHashDelIfExpired (hash : KvsHash) (key : Bytes) (hashCache : UInt64)
    (expectedExpire : Int) : KvsHash × Bool :=
  match hashFind hash key hashCache with
  | none => (hash, false)
  | some node =>
      if node.expireTime = expectedExpire then
        ((kvsHashDel hash key hashCache).1, true)
      else (hash, false)

/-! ## Walking -/

/-- What a node stores. -/
def HashNode.entry (node : HashNode) : Entry :=
  { key := node.key, value := node.value, expireTime := node.expireTime }

/-- `kvs_hash_foreach`: the entries the callback is given, in order. -/
def kvsHashForeach (enableTtl : Bool) (now : Int) (hash : KvsHash) :
    List Entry :=
  hash.buckets.flatMap (fun bucket =>
    (bucket.filter (fun node =>
      ¬ Expired enableTtl now node.expireTime)).map HashNode.entry)

/-! ## Comma-separated lists -/

/-- The pieces of a text between its commas. -/
def splitComma : Bytes → List Bytes
  | [] => [[]]
  | byte :: rest =>
      if byte = 44 then [] :: splitComma rest
      else
        match splitComma rest with
        | [] => [[byte]]
        | first :: others => (byte :: first) :: others

/-- `kvs_hash_append`. -/
def kvsHashAppend (enableTtl : Bool) (now : Int) (hash : KvsHash)
    (key : Bytes) (hashCache : UInt64) (id : Bytes) : KvsHash × Int :=
  if id.length = 0 then (hash, -1)
  else
    let existing := kvsHashGet enableTtl now hash key hashCache
    let old := existing.2.getD []
    if old.length = 0 then kvsHashSet existing.1 key hashCache id 0
    else if id ∈ splitComma old then (existing.1, 0)
    else
      kvsHashSet existing.1 key hashCache (old ++ ascii "," ++ id) 0

end Kivo.Engine.HashEngine
