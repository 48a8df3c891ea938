import Kivo.Engine.Store
import Kivo.Resp.Stream

/-!
# Active expiry

A command that stores an entry with an expiry time hands a timer to a
background thread through a queue.  The thread collects the timers in a
min-heap, takes out those that are due and hands them back through a second
queue, from which the main thread deletes entries whose time is still that of
the timer.

The queues are rings with one producer and one consumer.  The thread is
modelled as a machine that takes one step for each call of a queue or heap
operation, so that its steps may fall anywhere between those of the main
thread.
-/

namespace Kivo.Server.Expire

open Kivo.Clib.Memory
open Kivo.Clib.Ring
open Kivo.Engine.Data
open Kivo.Engine.ArrayEngine
open Kivo.Engine.HashEngine
open Kivo.Engine.RbtreeEngine
open Kivo.Engine.SkipEngine
open Kivo.Engine.Store
open Kivo.Resp.Stream (kvsMallocCopy)

/-! ## Timers -/

/-- The `EXPIRE_TYPE_*` marks. -/
inductive ExpireType where
  | array
  | hash
  | rbtree
  | skiplist
  | hash2
deriving DecidableEq, Repr

/-- The table that `engine_del_if_expired` turns to. -/
def ExpireType.table : ExpireType → Table
  | .array => .array
  | .hash => .hash .hash
  | .rbtree => .rbtree
  | .skiplist => .skip
  | .hash2 => .hash .hash2

/-- The command under which a deletion is logged. -/
def ExpireType.delCommand : ExpireType → Bytes
  | .array => ascii "DEL"
  | .hash => ascii "HDEL"
  | .rbtree => ascii "RDEL"
  | .skiplist => ascii "SDEL"
  | .hash2 => ascii "DELCTX"

/-- `expire_item_t`.  The field `version` repeats the time and is never read;
`key.hash_cache` is never set and holds whatever was on the stack. -/
structure ExpireItem where
  type : ExpireType
  key : Bytes
  hashCache : UInt64
  expireTime : Int
deriving DecidableEq, Repr

/-- An item of all zero bytes. -/
def ExpireItem.zero : ExpireItem :=
  { type := .array, key := [], hashCache := 0, expireTime := 0 }

/-! ## Queues -/

/-- `EXPIRE_QUEUE_SIZE`. -/
def expireQueueSize : Nat := 65536

/-- `expire_queue_t`. -/
structure ExpireQueue where
  items : Nat → ExpireItem
  head : Nat
  tail : Nat

/-- A queue of all zero bytes. -/
def ExpireQueue.zero : ExpireQueue :=
  { items := fun _ => ExpireItem.zero, head := 0, tail := 0 }

/-- `queue_push`; `none` is the return value `-1` of a full queue. -/
def queuePush (q : ExpireQueue) (item : ExpireItem) : Option ExpireQueue :=
  if (q.head + 1) % expireQueueSize = q.tail then none
  else
    some
      { q with
        items := setSlot q.items q.head item
        head := (q.head + 1) % expireQueueSize }

/-- `queue_pop`; `none` is the return value `-1` of an empty queue. -/
def queuePop (q : ExpireQueue) : Option (ExpireItem × ExpireQueue) :=
  if q.tail = q.head then none
  else
    some (q.items q.tail, { q with tail := (q.tail + 1) % expireQueueSize })

/-! ## The heap -/

/-- `min_heap_t`. -/
structure MinHeap where
  data : Nat → ExpireItem
  size : Nat

/-- The heap after `heap_init`. -/
def heapInit : MinHeap :=
  { data := fun _ => ExpireItem.zero, size := 0 }

/-- `heap_swap`. -/
def heapSwap (data : Nat → ExpireItem) (i j : Nat) : Nat → ExpireItem :=
  setSlot (setSlot data i (data j)) j (data i)

/-- The loop of `heap_push`; the index falls in every iteration. -/
def siftUp : Nat → (Nat → ExpireItem) → Nat → Nat → ExpireItem
  | 0, data, _ => data
  | fuel + 1, data, curr =>
      if curr = 0 then data
      else
        let parent := (curr - 1) / 2
        if (data parent).expireTime ≤ (data curr).expireTime then data
        else siftUp fuel (heapSwap data curr parent) parent

/-- `heap_push`. -/
def heapPush (heap : MinHeap) (item : ExpireItem) : MinHeap :=
  { data := siftUp heap.size (setSlot heap.data heap.size item) heap.size
    size := heap.size + 1 }

/-- The child that `heap_pop` compares with the smallest so far. -/
def smaller (data : Nat → ExpireItem) (size smallest child : Nat) : Nat :=
  if child < size ∧
      (data child).expireTime < (data smallest).expireTime then child
  else smallest

/-- The loop of `heap_pop`; the index grows in every iteration. -/
def siftDown (size : Nat) :
    Nat → (Nat → ExpireItem) → Nat → Nat → ExpireItem
  | 0, data, _ => data
  | fuel + 1, data, curr =>
      let smallest := smaller data size
        (smaller data size curr (2 * curr + 1)) (2 * curr + 2)
      if smallest = curr then data
      else siftDown size fuel (heapSwap data curr smallest) smallest

/-- `heap_pop`; `none` is the return value `-1` of an empty heap. -/
def heapPop (heap : MinHeap) : Option (ExpireItem × MinHeap) :=
  if heap.size = 0 then none
  else
    let size := heap.size - 1
    some (heap.data 0,
      { data := siftDown size size (setSlot heap.data 0 (heap.data size)) 0
        size := size })

/-! ## The thread -/

/-- Where `expire_thread_routine` stands: in front of `queue_pop`, with an item
in hand for `heap_push`, in front of the test of the heap's top with the clock
reading of this round, or with a due item in hand for `queue_push`. -/
inductive ThreadPhase where
  | collect
  | insert (item : ExpireItem)
  | fire (now : Int)
  | deliver (now : Int) (item : ExpireItem)
deriving DecidableEq, Repr

/-- `g_cmd_queue`, `g_delete_queue`, `g_heap` and the thread. -/
structure ExpireSystem where
  cmdQueue : ExpireQueue
  deleteQueue : ExpireQueue
  heap : MinHeap
  phase : ThreadPhase

/-- The system after `expire_system_init`. -/
def expireSystemInit : ExpireSystem :=
  { cmdQueue := ExpireQueue.zero
    deleteQueue := ExpireQueue.zero
    heap := heapInit
    phase := .collect }

/-- One step of `expire_thread_routine`; `now` is what the clock shows. -/
def expireThreadStep (now : Int) (expire : ExpireSystem) : ExpireSystem :=
  match expire.phase with
  | .collect =>
      match queuePop expire.cmdQueue with
      | some (item, queue) =>
          { expire with cmdQueue := queue, phase := .insert item }
      | none => { expire with phase := .fire now }
  | .insert item =>
      { expire with heap := heapPush expire.heap item, phase := .collect }
  | .fire now =>
      if 0 < expire.heap.size ∧ (expire.heap.data 0).expireTime ≤ now then
        match heapPop expire.heap with
        | some (item, heap) =>
            { expire with heap := heap, phase := .deliver now item }
        | none => expire
      else { expire with phase := .collect }
  | .deliver now item =>
      match queuePush expire.deleteQueue item with
      | some queue =>
          { expire with deleteQueue := queue, phase := .fire now }
      | none => expire

/-- `expire_push_cmd`; `stack` is what the unset hash cache of the item
holds. -/
def expirePushCmd (stack : UInt64) (type : ExpireType) (key : Bytes)
    (expireTime : Int) (expire : ExpireSystem) : ExpireSystem :=
  match kvsMallocCopy key with
  | none => expire
  | some copy =>
      match queuePush expire.cmdQueue
          { type := type
            key := copy
            hashCache := stack
            expireTime := expireTime } with
      | some queue => { expire with cmdQueue := queue }
      | none => expire

/-! ## Conditional deletion -/

/-- `engine_del_if_expired`. -/
def engineDelIfExpired (tables : Tables) (item : ExpireItem) :
    Tables × Bool :=
  match item.type.table with
  | .array =>
      let result :=
        kvsArrayDelIfExpired tables.array item.key item.expireTime
      ({ tables with array := result.1 }, result.2)
  | .rbtree =>
      let result :=
        kvsRbtreeDelIfExpired tables.rbtree item.key item.expireTime
      ({ tables with rbtree := result.1 }, result.2)
  | .hash name =>
      let result :=
        kvsHashDelIfExpired (tables.hashes name) item.key item.hashCache
          item.expireTime
      ({ tables with
        hashes := Function.update tables.hashes name result.1 }, result.2)
  | .skip =>
      let result := kvsSkipDelIfExpired tables.skip item.key item.expireTime
      ({ tables with skip := result.1 }, result.2)

end Kivo.Server.Expire
