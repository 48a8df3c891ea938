import Kivo.Server.Expire

/-!
# What the expire system holds

A queue holds the timers between its two indices, and the heap holds the
timers below its size.  Pushing, popping and sifting move timers around and
make up none.  So a property of all timers that enter the system is kept by
every step of the thread, and what the thread hands back has come due.
-/

namespace Kivo.Server.Timers

open Kivo.Clib
open Kivo.Clib.Memory
open Kivo.Clib.Ring
open Kivo.Resp.Stream (kvsMallocCopy)
open Kivo.Server
open Kivo.Server.Expire

/-! ## Queues -/

/-- The number of items in a queue. -/
def ExpireQueue.count (q : ExpireQueue) : Nat :=
  (q.head + expireQueueSize - q.tail) % expireQueueSize

/-- The items of a queue, oldest first. -/
def ExpireQueue.contents (q : ExpireQueue) : List ExpireItem :=
  ringContents expireQueueSize q.items q.tail (ExpireQueue.count q)

/-- The indices of a queue are indices of its slots. -/
structure QueueOk (q : ExpireQueue) : Prop where
  head : q.head < expireQueueSize
  tail : q.tail < expireQueueSize

theorem queueOk_zero : QueueOk ExpireQueue.zero :=
  ⟨by decide, by decide⟩

section Queue

variable {q after : ExpireQueue} {item : ExpireItem}

/-- `queue_push` appends. -/
theorem queuePush_contents (ok : QueueOk q)
    (pushed : queuePush q item = some after) :
    QueueOk after ∧
      ExpireQueue.contents after = ExpireQueue.contents q ++ [item] := by
  obtain ⟨head, tail⟩ := ok
  rw [queuePush] at pushed
  split_ifs at pushed with full
  cases pushed
  refine ⟨⟨Nat.mod_lt _ (by decide), tail⟩, ?_⟩
  have room : ExpireQueue.count q < expireQueueSize :=
    Nat.mod_lt _ (by decide)
  have grown : ExpireQueue.count
      { q with
        items := setSlot q.items q.head item
        head := (q.head + 1) % expireQueueSize } =
      ExpireQueue.count q + 1 := by
    simp only [ExpireQueue.count, expireQueueSize] at head tail full ⊢
    omega
  have slot : (q.tail + ExpireQueue.count q) % expireQueueSize = q.head := by
    simp only [ExpireQueue.count, expireQueueSize] at head tail ⊢
    omega
  have appended := @ringContents_push _ _ q.tail _ q.items item room
  rw [ExpireQueue.contents, ExpireQueue.contents, grown]
  rw [slot] at appended
  exact appended

/-- `queue_pop` takes the oldest item. -/
theorem queuePop_contents (ok : QueueOk q)
    (popped : queuePop q = some (item, after)) :
    QueueOk after ∧
      ExpireQueue.contents q = item :: ExpireQueue.contents after := by
  obtain ⟨head, tail⟩ := ok
  rw [queuePop] at popped
  split_ifs at popped with empty
  cases popped
  refine ⟨⟨head, Nat.mod_lt _ (by decide)⟩, ?_⟩
  have shrunk : ExpireQueue.count q = ExpireQueue.count
      { q with tail := (q.tail + 1) % expireQueueSize } + 1 := by
    simp only [ExpireQueue.count, expireQueueSize] at head tail ⊢
    omega
  rw [ExpireQueue.contents, shrunk, ringContents_succ _ tail]
  rfl

/-- What holds of every item of a queue and of a new one. -/
theorem queuePush_forall {holds : ExpireItem → Prop} (ok : QueueOk q)
    (pushed : queuePush q item = some after)
    (all : ∀ other ∈ ExpireQueue.contents q, holds other)
    (fine : holds item) :
    ∀ other ∈ ExpireQueue.contents after, holds other := by
  intro other member
  rw [(queuePush_contents ok pushed).2] at member
  rcases List.mem_append.mp member with old | new
  · exact all other old
  · rw [List.mem_singleton.mp new]
    exact fine

/-- What holds of every item of a queue holds of the one that leaves. -/
theorem queuePop_forall {holds : ExpireItem → Prop} (ok : QueueOk q)
    (popped : queuePop q = some (item, after))
    (all : ∀ other ∈ ExpireQueue.contents q, holds other) :
    holds item ∧ ∀ other ∈ ExpireQueue.contents after, holds other := by
  rw [(queuePop_contents ok popped).2] at all
  exact List.forall_mem_cons.mp all

end Queue

/-! ## The heap -/

/-- All items below an index have a property. -/
def Below (holds : ExpireItem → Prop) (size : Nat)
    (data : Nat → ExpireItem) : Prop :=
  ∀ index < size, holds (data index)

section Heap

variable {holds : ExpireItem → Prop} {size : Nat} {data : Nat → ExpireItem}

theorem Below.setSlot (below : Below holds size data) (index : Nat)
    {item : ExpireItem} (fine : holds item) :
    Below holds size (setSlot data index item) := by
  intro other inside
  rw [Ring.setSlot]
  split_ifs
  · exact fine
  · exact below other inside

theorem Below.swap (below : Below holds size data) {i j : Nat}
    (first : i < size) (second : j < size) :
    Below holds size (heapSwap data i j) :=
  (below.setSlot i (below j second)).setSlot j (below i first)

theorem Below.siftUp {fuel curr : Nat} (below : Below holds size data)
    (inside : curr < size) :
    Below holds size (siftUp fuel data curr) := by
  induction fuel generalizing data curr with
  | zero => exact below
  | succ fuel induction =>
      rw [Expire.siftUp]
      split_ifs with root
      · exact below
      · have parent : (curr - 1) / 2 < size := by omega
        dsimp only
        split_ifs
        · exact below
        · exact induction (below.swap inside parent) parent

theorem smaller_lt {smallest child : Nat} (inside : smallest < size) :
    smaller data size smallest child < size := by
  rw [smaller]
  split_ifs with chosen
  · exact chosen.1
  · exact inside

theorem Below.siftDown {fuel curr : Nat} (below : Below holds size data)
    (inside : curr < size) :
    Below holds size (siftDown size fuel data curr) := by
  induction fuel generalizing data curr with
  | zero => exact below
  | succ fuel induction =>
      rw [Expire.siftDown]
      split_ifs
      · exact below
      · have next := @smaller_lt size data _ (2 * curr + 2)
          (@smaller_lt size data _ (2 * curr + 1) inside)
        exact induction (below.swap inside next) next

/-- `heap_push` adds one item. -/
theorem Below.heapPush {heap : MinHeap}
    (below : Below holds heap.size heap.data) {item : ExpireItem}
    (fine : holds item) :
    Below holds (heapPush heap item).size (heapPush heap item).data := by
  have stored : Below holds (heap.size + 1)
      (Ring.setSlot heap.data heap.size item) := by
    intro index inside
    rw [Ring.setSlot]
    split_ifs with last
    · exact fine
    · exact below index (by omega)
  exact stored.siftUp (Nat.lt_succ_self _)

/-- `heap_pop` takes the item at the top. -/
theorem Below.heapPop {heap after : MinHeap} {item : ExpireItem}
    (below : Below holds heap.size heap.data)
    (popped : heapPop heap = some (item, after)) :
    item = heap.data 0 ∧ holds item ∧ Below holds after.size after.data := by
  rw [Expire.heapPop] at popped
  split_ifs at popped with empty
  cases popped
  have top : holds (heap.data 0) := below 0 (Nat.pos_of_ne_zero empty)
  refine ⟨rfl, top, ?_⟩
  have shrunk : Below holds (heap.size - 1)
      (Ring.setSlot heap.data 0 (heap.data (heap.size - 1))) := by
    refine Below.setSlot ?_ 0 (below _ (by omega))
    exact fun index inside => below index (by omega)
  by_cases last : 0 < heap.size - 1
  · exact shrunk.siftDown last
  · intro index inside
    exact absurd (Nat.zero_lt_of_lt inside) last

end Heap

/-! ## The moves of the thread -/

/--
What a step of the thread does: it takes an item from the command queue or finds
the queue empty, inserts the item in hand, takes the item at the top of the heap
when it is due or starts again, or hands back the item in hand.  It waits while
the delete queue is full.
-/
inductive ThreadMove (now : Int) (expire : ExpireSystem) :
    ExpireSystem → Prop where
  | take {item : ExpireItem} {queue : ExpireQueue}
      (stands : expire.phase = .collect)
      (popped : queuePop expire.cmdQueue = some (item, queue)) :
      ThreadMove now expire
        { expire with cmdQueue := queue, phase := .insert item }
  | look (stands : expire.phase = .collect)
      (empty : queuePop expire.cmdQueue = none) :
      ThreadMove now expire { expire with phase := .fire now }
  | insert {item : ExpireItem} (stands : expire.phase = .insert item) :
      ThreadMove now expire
        { expire with heap := heapPush expire.heap item, phase := .collect }
  | ripen {reading : Int} {item : ExpireItem} {heap : MinHeap}
      (stands : expire.phase = .fire reading)
      (ripe : item.expireTime ≤ reading)
      (popped : heapPop expire.heap = some (item, heap)) :
      ThreadMove now expire
        { expire with heap := heap, phase := .deliver reading item }
  | again {reading : Int} (stands : expire.phase = .fire reading)
      (idle : ¬ (0 < expire.heap.size ∧
        (expire.heap.data 0).expireTime ≤ reading)) :
      ThreadMove now expire { expire with phase := .collect }
  | deliver {reading : Int} {item : ExpireItem} {queue : ExpireQueue}
      (stands : expire.phase = .deliver reading item)
      (pushed : queuePush expire.deleteQueue item = some queue) :
      ThreadMove now expire
        { expire with deleteQueue := queue, phase := .fire reading }
  | wait {reading : Int} {item : ExpireItem}
      (stands : expire.phase = .deliver reading item)
      (full : queuePush expire.deleteQueue item = none) :
      ThreadMove now expire expire

theorem expireThreadStep_move (now : Int) (expire : ExpireSystem) :
    ThreadMove now expire (expireThreadStep now expire) := by
  rw [expireThreadStep]
  cases stands : expire.phase with
  | collect =>
      dsimp only
      split
      · rename_i item queue popped
        exact .take stands popped
      · rename_i empty
        exact .look stands empty
  | insert item => exact .insert stands
  | fire reading =>
      dsimp only
      split_ifs with due
      · split
        · rename_i item heap popped
          refine .ripen stands ?_ popped
          rw [Expire.heapPop, if_neg (Nat.ne_of_gt due.1)] at popped
          cases popped
          exact due.2
        · rename_i empty
          rw [Expire.heapPop, if_neg (Nat.ne_of_gt due.1)] at empty
          cases empty
      · exact .again stands due
  | deliver reading item =>
      dsimp only
      split
      · rename_i queue pushed
        exact .deliver stands pushed
      · rename_i full
        exact .wait stands full

/-- `expire_push_cmd` brings in one item with a key, or nothing. -/
theorem expirePushCmd_cases (stack : UInt64) (type : ExpireType) (key : Bytes)
    (time : Int) (expire : ExpireSystem) :
    expirePushCmd stack type key time expire = expire ∨
      ∃ item queue, key ≠ [] ∧ item.hashCache = stack ∧
        item.expireTime = time ∧
          queuePush expire.cmdQueue item = some queue ∧
            expirePushCmd stack type key time expire =
              { expire with cmdQueue := queue } := by
  rw [expirePushCmd]
  cases copied : kvsMallocCopy key with
  | none => exact Or.inl rfl
  | some copy =>
      have proper : key ≠ [] := by
        rintro rfl
        cases copied
      dsimp only
      split
      · rename_i queue pushed
        exact Or.inr ⟨_, queue, proper, rfl, rfl, pushed, rfl⟩
      · exact Or.inl rfl

/-! ## The system -/

/-- The timer has a time. -/
def Timed (item : ExpireItem) : Prop :=
  0 < item.expireTime

/-- The timer has come due. -/
def Due (clock : Int) (item : ExpireItem) : Prop :=
  0 < item.expireTime ∧ item.expireTime ≤ clock

/-- What the thread has in hand. -/
def PhaseOk (clock : Int) : ThreadPhase → Prop
  | .collect => True
  | .insert item => Timed item
  | .fire now => now ≤ clock
  | .deliver now item => now ≤ clock ∧ Due clock item

/-- Every timer has a time, and every timer on its way back has come due. -/
structure Pending (clock : Int) (expire : ExpireSystem) : Prop where
  cmdOk : QueueOk expire.cmdQueue
  deleteOk : QueueOk expire.deleteQueue
  cmd : ∀ item ∈ ExpireQueue.contents expire.cmdQueue, Timed item
  heap : Below Timed expire.heap.size expire.heap.data
  phase : PhaseOk clock expire.phase
  delete : ∀ item ∈ ExpireQueue.contents expire.deleteQueue, Due clock item

theorem pending_init (clock : Int) : Pending clock expireSystemInit :=
  ⟨queueOk_zero, queueOk_zero, fun _ member => absurd member List.not_mem_nil,
    fun _ inside => absurd inside (Nat.not_lt_zero _), trivial,
    fun _ member => absurd member List.not_mem_nil⟩

theorem Due.mono {clock later : Int} {item : ExpireItem}
    (due : Due clock item) (passed : clock ≤ later) :
    Due later item :=
  ⟨due.1, due.2.trans passed⟩

/-- Time passes. -/
theorem Pending.mono {clock later : Int} {expire : ExpireSystem}
    (pending : Pending clock expire) (passed : clock ≤ later) :
    Pending later expire := by
  refine ⟨pending.cmdOk, pending.deleteOk, pending.cmd, pending.heap, ?_, ?_⟩
  · have phase := pending.phase
    cases stands : expire.phase with
    | collect => trivial
    | insert item =>
        rw [stands] at phase
        exact phase
    | fire now =>
        rw [stands] at phase
        exact le_trans phase passed
    | deliver now item =>
        rw [stands] at phase
        exact ⟨phase.1.trans passed, phase.2.mono passed⟩
  · intro item member
    exact (pending.delete item member).mono passed

/-- `expire_push_cmd` brings in a timer with a time, or nothing for an empty
key. -/
theorem Pending.pushCmd {clock : Int} {expire : ExpireSystem}
    (pending : Pending clock expire) (stack : UInt64) (type : ExpireType)
    {key : Bytes} {time : Int} (timed : key ≠ [] → 0 < time) :
    Pending clock (expirePushCmd stack type key time expire) := by
  rcases expirePushCmd_cases stack type key time expire with
    same | ⟨item, queue, proper, -, carries, pushed, handed⟩
  · rw [same]
    exact pending
  · rw [handed]
    have fine : Timed item := by
      rw [Timed, carries]
      exact timed proper
    exact ⟨(queuePush_contents pending.cmdOk pushed).1, pending.deleteOk,
      queuePush_forall pending.cmdOk pushed pending.cmd fine, pending.heap,
      pending.phase, pending.delete⟩

/-- One step of the thread. -/
theorem Pending.threadStep {clock now : Int} {expire : ExpireSystem}
    (pending : Pending clock expire) (passed : clock ≤ now) :
    Pending now (expireThreadStep now expire) := by
  have later := pending.mono passed
  have phase := later.phase
  have move := expireThreadStep_move now expire
  generalize expireThreadStep now expire = next at move ⊢
  cases move with
  | take stands popped =>
      obtain ⟨taken, rest⟩ :=
        queuePop_forall later.cmdOk popped later.cmd
      exact ⟨(queuePop_contents later.cmdOk popped).1, later.deleteOk, rest,
        later.heap, taken, later.delete⟩
  | look stands empty =>
      exact ⟨later.cmdOk, later.deleteOk, later.cmd, later.heap,
        le_refl now, later.delete⟩
  | insert stands =>
      rw [stands] at phase
      exact ⟨later.cmdOk, later.deleteOk, later.cmd,
        later.heap.heapPush phase, trivial, later.delete⟩
  | ripen stands ripe popped =>
      rw [stands] at phase
      obtain ⟨-, timed, below⟩ := later.heap.heapPop popped
      exact ⟨later.cmdOk, later.deleteOk, later.cmd, below,
        ⟨phase, timed, ripe.trans phase⟩, later.delete⟩
  | again stands idle =>
      exact ⟨later.cmdOk, later.deleteOk, later.cmd, later.heap, trivial,
        later.delete⟩
  | deliver stands pushed =>
      rw [stands] at phase
      exact ⟨later.cmdOk, (queuePush_contents later.deleteOk pushed).1,
        later.cmd, later.heap, phase.1,
        queuePush_forall later.deleteOk pushed later.delete phase.2⟩
  | wait stands full => exact later

end Kivo.Server.Timers
