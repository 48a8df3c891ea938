import Kivo.Engine.Data

/-!
# The array engine

`kvs_array.c` keeps its items in the slots `0 .. total - 1` of a table of
fixed size, finds a key by linear search and fills the hole of a deleted item
with the last one.  The model keeps the occupied slots as a list.
-/

namespace Kivo.Engine.ArrayEngine

open Kivo.Clib.Memory
open Kivo.Engine.Data

/-- `KVS_ARRAY_SIZE`. -/
def kvsArraySize : Nat := 100000

/-- `kv_data_dup`: the copy of an empty string is the null pointer. -/
def kvDataDup (content : Bytes) : Option Bytes :=
  if content.length = 0 then none else some content

/-- `kvs_array_item_t`. -/
structure ArrayItem where
  key : Option Bytes
  value : Option Bytes
  expireTime : Int
deriving DecidableEq, Repr

/-- `kvs_array_t`: the items of the slots below `total`. -/
structure KvsArray where
  items : List ArrayItem
deriving DecidableEq, Repr

/-- The table after `kvs_array_create`. -/
def kvsArrayCreate : KvsArray :=
  { items := [] }

/-- The test of `find_key_index`; a null key matches nothing. -/
def ArrayItem.hasKey (key : Bytes) (item : ArrayItem) : Bool :=
  match item.key with
  | none => false
  | some stored => kvDataCompare stored key == .eq

/-- `find_key_index`. -/
def findKeyIndex (inst : KvsArray) (key : Bytes) : Option Nat :=
  inst.items.findIdx? (ArrayItem.hasKey key)

/-- `kvs_array_set`, with its return value. -/
def kvsArraySet (inst : KvsArray) (key value : Bytes) (expireTime : Int) :
    KvsArray × Int :=
  match findKeyIndex inst key with
  | some index =>
      ({ items := inst.items.modify index (fun item =>
          { item with
            value := kvDataDup value
            expireTime := expireTime }) }, 0)
  | none =>
      if kvsArraySize ≤ inst.items.length then (inst, -1)
      else
        ({ items := inst.items ++
            [{ key := kvDataDup key
               value := kvDataDup value
               expireTime := expireTime }] }, 0)

/-- `kvs_array_mod`. -/
def kvsArrayMod (inst : KvsArray) (key value : Bytes) (expireTime : Int) :
    KvsArray × Int :=
  kvsArraySet inst key value expireTime

/-- Remove a slot by moving the last item into it. -/
def removeSlot (items : List ArrayItem) (index : Nat) : List ArrayItem :=
  match items.getLast? with
  | none => items
  | some last => (items.set index last).dropLast

/-- `kvs_array_del`. -/
def kvsArrayDel (inst : KvsArray) (key : Bytes) : KvsArray × Int :=
  match findKeyIndex inst key with
  | none => (inst, 1)
  | some index => ({ items := removeSlot inst.items index }, 0)

/-- The item a key is found at. -/
def arrayFind (inst : KvsArray) (key : Bytes) : Option ArrayItem :=
  inst.items.find? (ArrayItem.hasKey key)

/--
`kvs_array_get`: a key whose time has passed is deleted on the way.  A value
with a null pointer reads as the empty string.
-/
def kvsArrayGet (enableTtl : Bool) (now : Int) (inst : KvsArray)
    (key : Bytes) : KvsArray × Option Bytes :=
  match arrayFind inst key with
  | none => (inst, none)
  | some item =>
      if enableTtl ∧ 0 < item.expireTime ∧ item.expireTime < now then
        ((kvsArrayDel inst key).1, none)
      else (inst, some (item.value.getD []))

/-- `kvs_array_exist`: `0` for a key that is there. -/
def kvsArrayExist (enableTtl : Bool) (now : Int) (inst : KvsArray)
    (key : Bytes) : KvsArray × Int :=
  let found := kvsArrayGet enableTtl now inst key
  (found.1, if found.2 = none then 1 else 0)

/-- `kvs_array_del_if_expired`. -/
def kvsArrayDelIfExpired (inst : KvsArray) (key : Bytes)
    (expectedExpire : Int) : KvsArray × Bool :=
  match arrayFind inst key with
  | none => (inst, false)
  | some item =>
      if item.expireTime ≠ expectedExpire then (inst, false)
      else ((kvsArrayDel inst key).1, true)

/-- What a slot stores. -/
def ArrayItem.entry (item : ArrayItem) : Entry :=
  { key := item.key.getD []
    value := item.value.getD []
    expireTime := item.expireTime }

/--
`kvs_array_foreach`: the entries the callback is given, in order.  The whole
loop stands under the test for TTL, and a slot with a null key is passed over.
-/
def kvsArrayForeach (enableTtl : Bool) (now : Int) (inst : KvsArray) :
    List Entry :=
  if enableTtl then
    (inst.items.filter (fun item =>
      item.key.isSome ∧
        ¬ (0 < item.expireTime ∧ item.expireTime < now))).map
      ArrayItem.entry
  else []

end Kivo.Engine.ArrayEngine
