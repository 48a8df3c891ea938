import Kivo.Clib.Chain
import Kivo.Clib.Numeral
import Kivo.Engine.Data

/-!
# The skip list engine

`kvs_skiptable.c` keeps its nodes in key order on level zero and links a node
of level `l` into the lists of the levels `0 .. l`.  The model keeps the
pointers: nodes live at addresses of a heap, address `0` is the null pointer
and address `1` the header node.  The level of a new node is drawn by
`random_level`; here it is an argument.

The sorted sets of the `ZADD` family live in the same skip list, under keys
composed of a zero-padded timestamp and an id.
-/

namespace Kivo.Engine.SkipEngine

open Kivo.Clib.Memory
open Kivo.Clib.Numeral
open Kivo.Clib.Chain
open Kivo.Engine.Data

/-! ## State -/

/-- `MAX_LEVEL`. -/
def maxLevel : Nat := 12

/-- The null pointer. -/
def null : Nat := 0

/-- The address of the header node. -/
def header : Nat := 1

/-- `skipnode_binary_t`. -/
structure SkipNode where
  entry : Entry
  level : Nat
  forward : Nat → Nat

/-- `skiplist_binary_t` with its heap; `next` is the next free address, and
`count` is an `int`. -/
structure KvsSkip where
  nodes : Nat → SkipNode
  level : Nat
  count : Int
  next : Nat

/-- `skipnode_create`, without the allocation. -/
def skipnodeCreate (level : Nat) (entry : Entry) : SkipNode :=
  { entry := entry
    level := level
    forward := fun _ => null }

/-- The list after `kvs_skip_create`. -/
def kvsSkipCreate : KvsSkip :=
  { nodes := fun _ =>
      skipnodeCreate maxLevel { key := [], value := [], expireTime := 0 }
    level := 0
    count := 0
    next := 2 }

/-- The list that `forward[level]` links. -/
def KvsSkip.forwardAt (skip : KvsSkip) (level : Nat) : Nat → Nat :=
  fun address => (skip.nodes address).forward level

/-- Change one node. -/
def KvsSkip.update (skip : KvsSkip) (address : Nat)
    (change : SkipNode → SkipNode) : KvsSkip :=
  { skip with
    nodes := fun other =>
      if other = address then change (skip.nodes other)
      else skip.nodes other }

/-- `address->forward[level] = target`. -/
def KvsSkip.setForward (skip : KvsSkip) (address level target : Nat) :
    KvsSkip :=
  skip.update address (fun node =>
    { node with
      forward := fun other =>
        if other = level then target else node.forward other })

/-! ## Search -/

/-- The node at an address lies below the key. -/
def KvsSkip.below (skip : KvsSkip) (key : Bytes) (address : Nat) : Bool :=
  kvDataCompare (skip.nodes address).entry.key key == .lt

/-- The loop of `skip_find_update` over the levels `levels - 1 .. 0`: the
array `update` and the node where it ends. -/
def findUpdateLoop (skip : KvsSkip) (key : Bytes) :
    Nat → Nat → (Nat → Nat) → (Nat → Nat) × Nat
  | 0, current, update => (update, current)
  | level + 1, current, update =>
      let stop := advance (skip.forwardAt level) null (skip.below key)
        skip.next current
      findUpdateLoop skip key level stop
        (fun other => if other = level then stop else update other)

/-- `skip_find_update`: the array `update` and `*found_node`. -/
def skipFindUpdate (skip : KvsSkip) (key : Bytes) : (Nat → Nat) × Nat :=
  let path := findUpdateLoop skip key (skip.level + 1) header (fun _ => null)
  let current := skip.forwardAt 0 path.2
  let found :=
    if current ≠ null ∧
        kvDataCompare (skip.nodes current).entry.key key = .eq then current
    else null
  (path.1, found)

/-! ## Deletion -/

/-- One iteration of the unlinking loop. -/
def unlinkStep (update : Nat → Nat) (node : Nat) (skip : KvsSkip)
    (level : Nat) : KvsSkip :=
  if skip.forwardAt level (update level) = node then
    skip.setForward (update level) level (skip.forwardAt level node)
  else skip

/-- The loop that lowers `skip->level` past the empty levels. -/
def lowerLevel (forward : Nat → Nat) : Nat → Nat
  | 0 => 0
  | level + 1 =>
      if forward (level + 1) = null then lowerLevel forward level
      else level + 1

/-- Take a node out; `kvs_skip_del` and `handle_expired_node` share this. -/
def skipUnlink (skip : KvsSkip) (update : Nat → Nat) (node : Nat) : KvsSkip :=
  let unlinked :=
    (List.range (skip.level + 1)).foldl (unlinkStep update node) skip
  { unlinked with
    count := toInt32 (unlinked.count - 1)
    level := lowerLevel (unlinked.nodes header).forward unlinked.level }

/-- `kvs_skip_del`. -/
def kvsSkipDel (skip : KvsSkip) (key : Bytes) : KvsSkip × Int :=
  let found := skipFindUpdate skip key
  if found.2 = null then (skip, 1)
  else (skipUnlink skip found.1 found.2, 0)

/-! ## Insertion -/

/-- One iteration of the linking loop. -/
def linkStep (update : Nat → Nat) (node : Nat) (skip : KvsSkip)
    (level : Nat) : KvsSkip :=
  (skip.setForward node level (skip.forwardAt level (update level))).setForward
    (update level) level node

/-- The new node of `kvs_skip_set`. -/
def skipInsert (skip : KvsSkip) (update : Nat → Nat) (level : Nat)
    (entry : Entry) : KvsSkip :=
  let update := fun other =>
    if skip.level < other ∧ other ≤ level then header else update other
  let node := skip.next
  let raised : KvsSkip :=
    { nodes := fun address =>
        if address = node then skipnodeCreate level entry
        else skip.nodes address
      level := if skip.level < level then level else skip.level
      count := skip.count
      next := skip.next + 1 }
  let linked := (List.range (level + 1)).foldl (linkStep update node) raised
  { linked with count := toInt32 (linked.count + 1) }

/-- `kvs_skip_set`, with its return value. -/
def kvsSkipSet (skip : KvsSkip) (key value : Bytes) (expireTime : Int)
    (level : Nat) : KvsSkip × Int :=
  let entry : Entry :=
    { key := key, value := value, expireTime := expireTime }
  let found := skipFindUpdate skip key
  if found.2 ≠ null then
    if value.length ≤ (skip.nodes found.2).entry.value.length then
      (skip.update found.2 (fun node =>
        { node with
          entry :=
            { node.entry with
              value := value
              expireTime := expireTime } }), 0)
    else
      let skip := (kvsSkipDel skip key).1
      (skipInsert skip (skipFindUpdate skip key).1 level entry, 0)
  else (skipInsert skip found.1 level entry, 0)

/-- `kvs_skip_mod`. -/
def kvsSkipMod (skip : KvsSkip) (key value : Bytes) (expireTime : Int)
    (level : Nat) : KvsSkip × Int :=
  kvsSkipSet skip key value expireTime level

/-! ## Reading -/

/-- `kvs_skip_get`, with the lazy deletion of a key whose time has passed. -/
def kvsSkipGet (enableTtl : Bool) (now : Int) (skip : KvsSkip)
    (key : Bytes) : KvsSkip × Option Bytes :=
  let found := skipFindUpdate skip key
  if found.2 = null then (skip, none)
  else
    let entry := (skip.nodes found.2).entry
    if enableTtl ∧ 0 < entry.expireTime ∧ entry.expireTime < now then
      (skipUnlink skip found.1 found.2, none)
    else (skip, some entry.value)

/-- `kvs_skip_exist`: `0` for a key that is there. -/
def kvsSkipExist (enableTtl : Bool) (now : Int) (skip : KvsSkip)
    (key : Bytes) : KvsSkip × Int :=
  let found := kvsSkipGet enableTtl now skip key
  (found.1, if found.2 ≠ none then 0 else 1)

/-- `kvs_skip_del_if_expired`. -/
def kvsSkipDelIfExpired (skip : KvsSkip) (key : Bytes)
    (expectedExpire : Int) : KvsSkip × Bool :=
  let found := skipFindUpdate skip key
  if found.2 ≠ null ∧
      (skip.nodes found.2).entry.expireTime = expectedExpire then
    ((kvsSkipDel skip key).1, true)
  else (skip, false)

/-- The loop of `kvs_skip_foreach` from a node on: the entries the callback is
given, in order. -/
def skipForeachLoop (skip : KvsSkip) (now : Int) (checkExpire : Bool) :
    Nat → Nat → List Entry
  | 0, _ => []
  | fuel + 1, node =>
      if node = null then []
      else
        let entry := (skip.nodes node).entry
        let rest := skipForeachLoop skip now checkExpire fuel
          (skip.forwardAt 0 node)
        if Expired checkExpire now entry.expireTime then rest
        else entry :: rest

/-- `kvs_skip_foreach`. -/
def kvsSkipForeach (enableTtl : Bool) (now : Int) (skip : KvsSkip) :
    List Entry :=
  skipForeachLoop skip now enableTtl skip.next (skip.forwardAt 0 header)

/-- The addresses of level zero, in order. -/
def KvsSkip.addresses (skip : KvsSkip) : List Nat :=
  walk (skip.forwardAt 0) null skip.next header

/-- The entries of level zero, in order. -/
def KvsSkip.entries (skip : KvsSkip) : List Entry :=
  skip.addresses.map (fun address => (skip.nodes address).entry)

/-! ## Sorted sets -/

/-- The output of `"%015lld:"` for a positive timestamp. -/
def zsetStamp (ts : Int) : Bytes :=
  let digits := decimal ts.toNat
  List.replicate (15 - digits.length) 48 ++ digits ++ ascii ":"

/-- `zset_make_key` with its buffer of 128 bytes. -/
def zsetMakeKey (ts : Int) (id : Bytes) : Option Bytes :=
  let stamp := zsetStamp ts
  if 128 ≤ stamp.length + id.length then none else some (stamp ++ id)

/-- `zset_extract_id`. -/
def zsetExtractId (key : Bytes) : Option Bytes :=
  if key.length < 16 then none else some (key.drop 16)

/-- `kvs_zset_add`, with its return value. -/
def kvsZsetAdd (skip : KvsSkip) (timestamp : Int) (id : Bytes)
    (level : Nat) : KvsSkip × Int :=
  if id.length = 0 then (skip, -1)
  else
    match zsetMakeKey timestamp id with
    | none => (skip, -1)
    | some key => kvsSkipSet skip key [] 0 level

/-- `start` and `want` of `kvs_zset_recent`, with the number of nodes counted in
an `int`.  An array of a negative number of pointers is not allocated. -/
def recentWindow (number : Nat) (n : Int) : Option (Nat × Nat) :=
  let total := toInt32 number
  if total = 0 then some (0, 0)
  else
    let start := if n < total then total - n else 0
    let want := total - start
    if want < 0 then none else some (start.toNat, want.toNat)

/-- The walk of `kvs_zset_recent`: behind `start` nodes it takes ids until there
are `want` of them. -/
def collectIds (keys : List Bytes) (window : Nat × Nat) : List Bytes :=
  ((keys.drop window.1).filterMap zsetExtractId).take window.2

/-- `kvs_zset_recent`: the ids, or an error. -/
def kvsZsetRecent (skip : KvsSkip) (n : Int) : Option (List Bytes) :=
  if n ≤ 0 then none
  else
    (recentWindow skip.entries.length n).map
      (collectIds (skip.entries.map (fun entry => entry.key)))

/-- As long as an `int` counts the nodes, the window is the end of the list. -/
theorem recentWindow_of_counted {number : Nat} {n : Int} (positive : 0 < n)
    (counted : number < 2 ^ 31) :
    recentWindow number n =
      some (number - n.toNat, number - (number - n.toNat)) := by
  simp only [recentWindow]
  rw [toInt32_of_range (by omega) (by omega)]
  split_ifs with empty more negative negative
  · rw [show number = 0 by omega]
    simp
  · omega
  · congr 2 <;> omega
  · omega
  · congr 2 <;> omega

theorem recentWindow_eq_none_iff {number : Nat} {n : Int} (positive : 0 < n) :
    recentWindow number n = none ↔ toInt32 number < 0 := by
  simp only [recentWindow]
  split_ifs with empty more negative negative
  · simp [empty]
  · omega
  · simp only [false_iff]
    omega
  · simp only [true_iff]
    omega
  · simp only [false_iff]
    omega

theorem kvsZsetRecent_eq_none_iff {skip : KvsSkip} {n : Int}
    (positive : 0 < n) :
    kvsZsetRecent skip n = none ↔ toInt32 skip.entries.length < 0 := by
  rw [kvsZsetRecent, if_neg (by omega), Option.map_eq_none_iff]
  exact recentWindow_eq_none_iff positive

/-- `kvs_zset_recent` on a list that an `int` counts: the ids of the last
nodes. -/
theorem kvsZsetRecent_of_counted {skip : KvsSkip} {n : Int} (positive : 0 < n)
    (counted : skip.entries.length < 2 ^ 31) :
    kvsZsetRecent skip n =
      some (((skip.entries.map (fun entry => entry.key)).drop
        (skip.entries.length - n.toNat)).filterMap zsetExtractId) := by
  rw [kvsZsetRecent, if_neg (by omega),
    recentWindow_of_counted positive counted, Option.map_some, collectIds]
  congr 1
  refine List.take_of_length_le ((List.length_filterMap_le _ _).trans ?_)
  rw [List.length_drop, List.length_map]

end Kivo.Engine.SkipEngine
