import Mathlib.Data.List.ReduceOption
import Kivo.Clib.BinaryHeap
import Kivo.Clib.GrowingBuffer
import Kivo.Clib.Simulation
import Kivo.Server.Expire

/-!
# The heap of the expire thread

`g_heap` is an array that is allocated once and grows by `realloc` to twice its
capacity.  Here every access is checked against the allocation: a call has no
result when it would leave the array or follow the null pointer.  As long as
the allocator grants what is asked for, all calls have results and the array is
the heap of `Kivo.Server.Expire`, which is a binary heap on `expire_time`.
-/

namespace Kivo.Server.ExpireHeap

open Kivo.Clib
open Kivo.Clib.BinaryHeap (TakesLeast)
open Kivo.Clib.GrowingBuffer (extended extended_length)
open Kivo.Clib.Memory
open Kivo.Clib.Ring (setSlot)
open Kivo.Clib.Simulation
open Kivo.Server.Expire

/-! ## The array -/

/-- What the allocator answers when it is asked: whether it grants the request,
and what the new memory holds. -/
structure Grant where
  granted : Bool
  junk : Nat → ExpireItem

/-- `sizeof(expire_item_t)`. -/
def expireItemSize : Nat := 48

/-- `min_heap_t`; the null pointer is `none`. -/
structure HeapArray where
  data : Option (List ExpireItem)
  size : Nat
  capacity : Int

/-- `sizeof(expire_item_t) * capacity`, a `size_t`. -/
def arrayBytes (capacity : Int) : Nat :=
  (expireItemSize * capacity % 2 ^ 64).toNat

/-- `realloc` of an array; no request over `PTRDIFF_MAX` is granted. -/
def reallocArray (grant : Grant) (bytes : Nat) (cells : List ExpireItem) :
    Option (List ExpireItem) :=
  let count := bytes / expireItemSize
  if grant.granted = true ∧ bytes < 2 ^ 63 then
    some ((extended grant.junk count cells).take count)
  else none

/-- `heap_init`. -/
def heapInit (grant : Grant) (initCap : Int) : HeapArray :=
  let capacity := if 1024 < initCap then initCap else 1024
  { data := reallocArray grant (arrayBytes capacity) []
    size := 0
    capacity := capacity }

/-- `heap_swap`. -/
def heapSwap (cells : List ExpireItem) (i j : Nat) :
    Option (List ExpireItem) := do
  let first ← cells[i]?
  let second ← cells[j]?
  return (cells.set i second).set j first

/-- The loop of `heap_push`; the index falls in every iteration. -/
def siftUp : Nat → List ExpireItem → Nat → Option (List ExpireItem)
  | 0, cells, _ => some cells
  | fuel + 1, cells, curr =>
      if curr = 0 then some cells
      else do
        let parent := (curr - 1) / 2
        let own ← cells[curr]?
        let above ← cells[parent]?
        if above.expireTime ≤ own.expireTime then return cells
        else siftUp fuel (← heapSwap cells curr parent) parent

/-- The first lines of `heap_push`. -/
def heapGrow (grant : Grant) (array : HeapArray) : HeapArray :=
  if array.capacity ≤ array.size then
    let capacity := toInt32 (array.capacity * 2)
    { array with
      capacity := capacity
      data := reallocArray grant (arrayBytes capacity)
        (array.data.getD []) }
  else array

/-- `heap_push`. -/
def heapPush (grant : Grant) (array : HeapArray) (item : ExpireItem) :
    Option HeapArray := do
  let grown := heapGrow grant array
  let cells ← grown.data
  if grown.size < cells.length then
    let sifted ← siftUp grown.size (cells.set grown.size item) grown.size
    return { grown with data := some sifted, size := grown.size + 1 }
  else none

/-- The child that `heap_pop` compares with the smallest so far. -/
def smaller (cells : List ExpireItem) (size smallest child : Nat) :
    Option Nat :=
  if child < size then do
    let below ← cells[child]?
    let least ← cells[smallest]?
    return if below.expireTime < least.expireTime then child else smallest
  else some smallest

/-- The loop of `heap_pop`; the index grows in every iteration. -/
def siftDown (size : Nat) :
    Nat → List ExpireItem → Nat → Option (List ExpireItem)
  | 0, cells, _ => some cells
  | fuel + 1, cells, curr => do
      let left ← smaller cells size curr (2 * curr + 1)
      let smallest ← smaller cells size left (2 * curr + 2)
      if smallest = curr then return cells
      else siftDown size fuel (← heapSwap cells curr smallest) smallest

/-- `heap_pop`; the item is `none` when the return value is `-1`. -/
def heapPop (array : HeapArray) :
    Option (HeapArray × Option ExpireItem) :=
  if array.size = 0 then some (array, none)
  else do
    let cells ← array.data
    let size := array.size - 1
    let top ← cells[0]?
    let last ← cells[size]?
    let sifted ← siftDown size size (cells.set 0 last) 0
    return ({ array with data := some sifted, size := size }, some top)

/-! ## The array as a heap -/

/-- The items that the array holds. -/
def HeapArray.held (array : HeapArray) : Multiset ExpireItem :=
  (array.data.getD []).take array.size

/-- No item of the array is due before its parent. -/
def HeapArray.MinOrdered (array : HeapArray) : Prop :=
  ∀ index parent own, 0 < index → index < array.size →
    (array.data.getD [])[(index - 1) / 2]? = some parent →
    (array.data.getD [])[index]? = some own →
      parent.expireTime ≤ own.expireTime

/-- The cells below a size are those of a function. -/
def Mirrors (cells : List ExpireItem) (size : Nat)
    (data : Nat → ExpireItem) : Prop :=
  ∀ index < size, cells[index]? = some (data index)

/-- An array stands for a heap. -/
structure Represents (array : HeapArray) (heap : MinHeap) : Prop where
  allocated : ∃ cells, array.data = some cells ∧
    array.capacity = cells.length ∧ Mirrors cells heap.size heap.data
  size : array.size = heap.size
  room : (array.size : Int) ≤ array.capacity
  positive : 0 < array.capacity
  bound : array.capacity < 2 ^ 31

section Cells

variable {cells : List ExpireItem} {size : Nat} {data : Nat → ExpireItem}

theorem Mirrors.le (mirrors : Mirrors cells size data) :
    size ≤ cells.length := by
  cases size with
  | zero => exact Nat.zero_le _
  | succ size =>
      exact (List.getElem?_eq_some_iff.mp
        (mirrors size (Nat.lt_succ_self size))).1

theorem Mirrors.set (mirrors : Mirrors cells size data) {index : Nat}
    (inside : index < cells.length) (item : ExpireItem) :
    Mirrors (cells.set index item) size (setSlot data index item) := by
  intro other below
  rw [setSlot]
  split_ifs with here
  · rw [here, List.getElem?_set_self inside]
  · rw [List.getElem?_set_ne (Ne.symm here)]
    exact mirrors other below

/-- `heap_swap` inside the array. -/
theorem heapSwap_mirrors (mirrors : Mirrors cells size data) {i j : Nat}
    (first : i < size) (second : j < size) :
    ∃ swapped, heapSwap cells i j = some swapped ∧
      swapped.length = cells.length ∧
      Mirrors swapped size (Expire.heapSwap data i j) := by
  have fits := mirrors.le
  refine ⟨(cells.set i (data j)).set j (data i), ?_, ?_, ?_⟩
  · simp only [heapSwap, mirrors i first, mirrors j second,
      Option.bind_eq_bind, Option.bind_some, Option.pure_def]
  · rw [List.length_set, List.length_set]
  · refine (mirrors.set (first.trans_le fits) _).set ?_ _
    rw [List.length_set]
    exact second.trans_le fits

/-- The loop of `heap_push` stays inside the array. -/
theorem siftUp_mirrors {fuel curr : Nat}
    (mirrors : Mirrors cells size data) (inside : curr < size) :
    ∃ sifted, siftUp fuel cells curr = some sifted ∧
      sifted.length = cells.length ∧
      Mirrors sifted size (Expire.siftUp fuel data curr) := by
  induction fuel generalizing cells data curr with
  | zero => exact ⟨cells, rfl, rfl, mirrors⟩
  | succ fuel induction =>
      have above : (curr - 1) / 2 < size := by omega
      rw [siftUp, Expire.siftUp]
      split_ifs with root
      · exact ⟨cells, rfl, rfl, mirrors⟩
      · simp only [mirrors curr inside, mirrors _ above,
          Option.bind_eq_bind, Option.bind_some]
        split_ifs with placed
        · exact ⟨cells, rfl, rfl, mirrors⟩
        · obtain ⟨swapped, ran, length, next⟩ :=
            heapSwap_mirrors mirrors inside above
          obtain ⟨sifted, last, same, final⟩ := induction next above
          refine ⟨sifted, ?_, same.trans length, final⟩
          rw [ran, Option.bind_some]
          exact last

theorem smaller_mirrors {smallest : Nat} (mirrors : Mirrors cells size data)
    (inside : smallest < size) (child : Nat) :
    smaller cells size smallest child =
      some (Expire.smaller data size smallest child) := by
  rw [smaller, Expire.smaller]
  by_cases below : child < size
  · simp only [mirrors child below, mirrors smallest inside, below, if_true,
      true_and, Option.bind_eq_bind, Option.bind_some, Option.pure_def]
  · rw [if_neg below, if_neg (fun chosen => below chosen.1)]

/-- The loop of `heap_pop` stays inside the array. -/
theorem siftDown_mirrors {fuel curr : Nat}
    (mirrors : Mirrors cells size data) (inside : curr < size ∨ fuel = 0) :
    ∃ sifted, siftDown size fuel cells curr = some sifted ∧
      sifted.length = cells.length ∧
      Mirrors sifted size (Expire.siftDown size fuel data curr) := by
  induction fuel generalizing cells data curr with
  | zero => exact ⟨cells, rfl, rfl, mirrors⟩
  | succ fuel induction =>
      have here : curr < size := inside.resolve_right (Nat.succ_ne_zero fuel)
      have left : Expire.smaller data size curr (2 * curr + 1) < size :=
        BinaryHeap.smaller_lt here
      have right : Expire.smaller data size
          (Expire.smaller data size curr (2 * curr + 1)) (2 * curr + 2) <
            size :=
        BinaryHeap.smaller_lt left
      rw [siftDown, Expire.siftDown]
      simp only [smaller_mirrors mirrors here, smaller_mirrors mirrors left,
        Option.bind_eq_bind, Option.bind_some]
      split_ifs with stays
      · exact ⟨cells, rfl, rfl, mirrors⟩
      · obtain ⟨swapped, ran, length, next⟩ :=
          heapSwap_mirrors mirrors here right
        obtain ⟨sifted, last, same, final⟩ := induction next (Or.inl right)
        refine ⟨sifted, ?_, same.trans length, final⟩
        rw [ran, Option.bind_some]
        exact last

end Cells

/-! ## The heap as a binary heap -/

/-- The items of a heap. -/
def heapItems (heap : MinHeap) : Multiset ExpireItem :=
  BinaryHeap.held heap.data heap.size

/-- A heap on the time. -/
def HeapOrdered (heap : MinHeap) : Prop :=
  BinaryHeap.Ordered ExpireItem.expireTime heap.data heap.size

theorem siftUp_eq (fuel : Nat) (data : Nat → ExpireItem) (curr : Nat) :
    Expire.siftUp fuel data curr =
      BinaryHeap.siftUp ExpireItem.expireTime fuel data curr := by
  induction fuel generalizing data curr with
  | zero => rfl
  | succ fuel induction =>
      rw [Expire.siftUp, BinaryHeap.siftUp]
      dsimp only
      rw [induction]
      rfl

theorem siftDown_eq (size fuel : Nat) (data : Nat → ExpireItem)
    (curr : Nat) :
    Expire.siftDown size fuel data curr =
      BinaryHeap.siftDown ExpireItem.expireTime size fuel data curr := by
  induction fuel generalizing data curr with
  | zero => rfl
  | succ fuel induction =>
      rw [Expire.siftDown, BinaryHeap.siftDown]
      rw [induction]
      rfl

/-- `heap_push` adds an item. -/
theorem heapPush_queue {heap : MinHeap} (ordered : HeapOrdered heap)
    (item : ExpireItem) :
    HeapOrdered (Expire.heapPush heap item) ∧
      heapItems (Expire.heapPush heap item) = item ::ₘ heapItems heap := by
  simp only [HeapOrdered, heapItems, Expire.heapPush, siftUp_eq]
  exact ⟨ordered.insert item, BinaryHeap.held_insert heap.data heap.size item⟩

/-- `heap_pop` takes an item out that none is due before. -/
theorem heapPop_queue {heap after : MinHeap} {item : ExpireItem}
    (ordered : HeapOrdered heap)
    (popped : Expire.heapPop heap = some (item, after)) :
    HeapOrdered after ∧
      TakesLeast ExpireItem.expireTime (heapItems heap) item
        (heapItems after) := by
  obtain ⟨data, size⟩ := heap
  cases size with
  | zero => cases popped
  | succ last =>
      cases popped
      simp only [HeapOrdered, heapItems, siftDown_eq]
      exact ⟨ordered.remove, ordered.takesLeast⟩

theorem heapPop_empty {heap : MinHeap} (popped : Expire.heapPop heap = none) :
    heapItems heap = 0 := by
  obtain ⟨data, size⟩ := heap
  cases size with
  | zero => rfl
  | succ last => cases popped

/-! ## Calls on the array -/

/-- The bytes of a capacity. -/
theorem arrayBytes_of_nonneg {capacity : Int} (positive : 0 ≤ capacity)
    (bound : capacity < 2 ^ 31) :
    arrayBytes capacity = expireItemSize * capacity.toNat := by
  have fits : (48 : Int) * capacity % 2 ^ 64 = 48 * capacity := by omega
  simp only [arrayBytes, expireItemSize, Nat.cast_ofNat, fits]
  omega

/-- A negative capacity asks for more than any allocator has. -/
theorem arrayBytes_of_neg {capacity : Int} (lower : -2 ^ 31 ≤ capacity)
    (negative : capacity < 0) : 2 ^ 63 ≤ arrayBytes capacity := by
  have wrapped : (48 : Int) * capacity % 2 ^ 64 = 48 * capacity + 2 ^ 64 := by
    omega
  simp only [arrayBytes, expireItemSize, Nat.cast_ofNat, wrapped]
  omega

/-- A doubled capacity for which memory is granted is not cut. -/
theorem capacity_doubled {capacity : Int} (positive : 0 < capacity)
    (bound : capacity < 2 ^ 31)
    (allowed : arrayBytes (toInt32 (capacity * 2)) < 2 ^ 63) :
    toInt32 (capacity * 2) = capacity * 2 ∧ capacity * 2 < 2 ^ 31 := by
  by_cases small : capacity * 2 < 2 ^ 31
  · exact ⟨toInt32_of_range (by omega) small, small⟩
  · have wrapped := @toInt32_of_wrapped (capacity * 2) (not_lt.mp small)
    rw [wrapped (by linarith)] at allowed
    exact absurd allowed
      (not_lt.mpr (arrayBytes_of_neg (by linarith) (by linarith)))

/-- `heap_push` makes room. -/
theorem heapGrow_represents {grant : Grant} {array : HeapArray}
    {heap : MinHeap} (represents : Represents array heap)
    (reallocated : (heapGrow grant array).data ≠ none) :
    Represents (heapGrow grant array) heap ∧
      ((heapGrow grant array).size : Int) <
        (heapGrow grant array).capacity := by
  obtain ⟨⟨cells, data, capacity, mirrors⟩, size, room, positive, bound⟩ :=
    represents
  rw [heapGrow] at reallocated ⊢
  split_ifs at reallocated ⊢ with full
  · simp only [data, Option.getD_some, reallocArray] at reallocated ⊢
    split_ifs at reallocated ⊢ with fits
    · obtain ⟨doubled, small⟩ :=
        capacity_doubled positive bound fits.2
      rw [doubled] at fits ⊢
      have count : arrayBytes (array.capacity * 2) / expireItemSize =
          cells.length * 2 := by
        rw [arrayBytes_of_nonneg (by linarith) small,
          Nat.mul_div_cancel_left _ (by decide : 0 < expireItemSize), capacity]
        omega
      rw [count]
      have long : (extended grant.junk (cells.length * 2) cells).length =
          cells.length * 2 :=
        extended_length _ (by omega)
      have wider : array.capacity < array.capacity * 2 := by omega
      refine ⟨⟨⟨_, rfl, ?_, ?_⟩, size, room.trans wider.le,
        positive.trans wider, small⟩, room.trans_lt wider⟩
      · rw [List.take_of_length_le long.le, long, capacity]
        rfl
      · intro index below
        have inside := lt_of_lt_of_le below mirrors.le
        rw [List.take_of_length_le long.le, extended,
          List.getElem?_append_left inside]
        exact mirrors index below
    · exact absurd rfl reallocated
  · exact ⟨⟨⟨cells, data, capacity, mirrors⟩, size, room, positive, bound⟩,
      not_le.mp full⟩

/-- `heap_push` on the array. -/
theorem heapPush_represents {grant : Grant} {array : HeapArray}
    {heap : MinHeap} (represents : Represents array heap)
    (reallocated : (heapGrow grant array).data ≠ none) (item : ExpireItem) :
    ∃ after, heapPush grant array item = some after ∧
      Represents after (Expire.heapPush heap item) := by
  obtain ⟨⟨⟨cells, data, capacity, mirrors⟩, size, room, positive, bound⟩,
    free⟩ := heapGrow_represents represents reallocated
  have inside : heap.size < cells.length := by omega
  have stored : Mirrors (cells.set heap.size item) (heap.size + 1)
      (setSlot heap.data heap.size item) := by
    intro index below
    rw [setSlot]
    split_ifs with here
    · rw [here, List.getElem?_set_self inside]
    · rw [List.getElem?_set_ne (Ne.symm here)]
      exact mirrors index (by omega)
  obtain ⟨sifted, ran, length, final⟩ :=
    @siftUp_mirrors _ _ _ heap.size heap.size stored (Nat.lt_succ_self _)
  refine ⟨{ heapGrow grant array with
    data := some sifted, size := heap.size + 1 }, ?_, ?_⟩
  · simp only [heapPush, data, size, inside, if_true, ran,
      Option.bind_eq_bind, Option.bind_some, Option.pure_def]
  · refine ⟨⟨sifted, rfl, ?_, final⟩, rfl, ?_, positive, bound⟩
    · rw [length, List.length_set]
      exact capacity
    · push_cast
      omega

/-- `heap_pop` on an empty array. -/
theorem heapPop_represents_none {array : HeapArray} {heap : MinHeap}
    (represents : Represents array heap)
    (popped : Expire.heapPop heap = none) :
    heapPop array = some (array, none) := by
  have empty : array.size = 0 := by
    rw [represents.size]
    by_contra some
    rw [Expire.heapPop, if_neg some] at popped
    cases popped
  rw [heapPop, if_pos empty]

/-- `heap_pop` on the array. -/
theorem heapPop_represents_some {array : HeapArray} {heap rest : MinHeap}
    {item : ExpireItem} (represents : Represents array heap)
    (popped : Expire.heapPop heap = some (item, rest)) :
    ∃ after, heapPop array = some (after, some item) ∧
      Represents after rest := by
  obtain ⟨⟨cells, data, capacity, mirrors⟩, size, room, positive, bound⟩ :=
    represents
  rw [Expire.heapPop] at popped
  split_ifs at popped with empty
  cases popped
  have last : heap.size - 1 < heap.size := by omega
  have stored : Mirrors (cells.set 0 (heap.data (heap.size - 1)))
      (heap.size - 1)
      (setSlot heap.data 0 (heap.data (heap.size - 1))) := by
    refine Mirrors.set ?_ (Nat.zero_lt_of_lt
      (last.trans_le mirrors.le)) _
    exact fun index below => mirrors index (by omega)
  obtain ⟨sifted, ran, length, final⟩ :=
    @siftDown_mirrors _ _ _ (heap.size - 1) 0 stored (by omega)
  refine ⟨{ array with data := some sifted, size := heap.size - 1 }, ?_, ?_⟩
  · rw [heapPop, size, if_neg empty]
    simp only [data, mirrors 0 (by omega), mirrors _ last, ran,
      Option.bind_eq_bind, Option.bind_some, Option.pure_def]
  · refine ⟨⟨sifted, rfl, ?_, final⟩, rfl, ?_, positive, bound⟩
    · rw [length, List.length_set]
      exact capacity
    · dsimp only
      omega

theorem Represents.held {array : HeapArray} {heap : MinHeap}
    (represents : Represents array heap) :
    array.held = heapItems heap := by
  obtain ⟨⟨cells, data, -, mirrors⟩, size, -⟩ := represents
  have front : cells.take heap.size =
      (List.range heap.size).map heap.data := by
    refine List.ext_getElem? (fun index => ?_)
    rw [List.getElem?_take, List.getElem?_map]
    split_ifs with below
    · rw [mirrors index below, List.getElem?_range below, Option.map_some]
    · rw [List.getElem?_eq_none (by rw [List.length_range]; omega),
        Option.map_none]
  rw [HeapArray.held, data, Option.getD_some, size, front, heapItems,
    BinaryHeap.held]
  rfl

theorem Represents.minOrdered {array : HeapArray} {heap : MinHeap}
    (represents : Represents array heap) (ordered : HeapOrdered heap) :
    array.MinOrdered := by
  obtain ⟨⟨cells, data, -, mirrors⟩, size, -⟩ := represents
  intro index parent own positive below above here
  rw [data, Option.getD_some] at above here
  rw [size] at below
  rw [mirrors _ (by omega)] at above
  rw [mirrors _ below] at here
  cases above
  cases here
  exact ordered index positive below

/-! ## Runs of calls -/

/-- The array stands for an ordered heap. -/
def HeapOk (array : HeapArray) : Prop :=
  ∃ heap, Represents array heap ∧ HeapOrdered heap

theorem HeapArray.held_card {array : HeapArray} (ok : HeapOk array) :
    array.held.card = array.size := by
  obtain ⟨heap, represents, -⟩ := ok
  rw [represents.held, heapItems, BinaryHeap.held, Multiset.card_map,
    Multiset.card_range, represents.size]

/-- An array with room does not grow. -/
theorem HeapOk.not_full {array : HeapArray} (ok : HeapOk array)
    (room : (array.size : Int) < array.capacity) {grant : Grant} :
    (heapGrow grant array).data ≠ none := by
  obtain ⟨heap, represents, -⟩ := ok
  obtain ⟨cells, data, -⟩ := represents.allocated
  rw [heapGrow, if_neg (not_le.mpr room), data]
  exact Option.some_ne_none cells

/-- The answer of `heap_pop`: an item that no other is due before, or `-1` when
there is none. -/
def Pops (before : Multiset ExpireItem) :
    Option ExpireItem → Multiset ExpireItem → Prop
  | none, after => before = 0 ∧ after = 0
  | some item, after => TakesLeast ExpireItem.expireTime before item after

/-- As long as the allocator grants what is asked for, a heap of less than
`2 ^ 30` items can grow. -/
theorem HeapOk.grows {array : HeapArray} (ok : HeapOk array)
    (few : array.size < 2 ^ 30) {grant : Grant}
    (granted : grant.granted = true) :
    (heapGrow grant array).data ≠ none := by
  by_cases room : (array.size : Int) < array.capacity
  · exact ok.not_full room
  · obtain ⟨heap, represents, -⟩ := ok
    have full := represents.room
    have positive := represents.positive
    have doubled : toInt32 (array.capacity * 2) = array.capacity * 2 :=
      toInt32_of_range (by omega) (by omega)
    have bytes := arrayBytes_of_nonneg (show 0 ≤ array.capacity * 2 by omega)
      (by omega)
    have fits : arrayBytes (array.capacity * 2) < 2 ^ 63 := by
      rw [bytes, expireItemSize]
      omega
    rw [heapGrow, if_pos (not_lt.mp room)]
    simp only [doubled, reallocArray, granted, fits, and_self, if_true, ne_eq,
      reduceCtorEq, not_false_eq_true]

theorem heapInit_ok {grant : Grant} (granted : grant.granted = true) :
    HeapOk (heapInit grant 4096) ∧ (heapInit grant 4096).held = 0 := by
  have bytes : arrayBytes 4096 = 196608 := by decide
  have allocated : reallocArray grant 196608 [] =
      some ((extended grant.junk 4096 []).take 4096) :=
    if_pos ⟨granted, by decide⟩
  have long : (extended grant.junk 4096 []).length = 4096 :=
    extended_length _ (by decide)
  have data : (heapInit grant 4096).data =
      some ((extended grant.junk 4096 []).take 4096) := by
    rw [← allocated, ← bytes]
    rfl
  have represents : Represents (heapInit grant 4096) Expire.heapInit := by
    have capacity : (heapInit grant 4096).capacity = 4096 := rfl
    have size : (heapInit grant 4096).size = 0 := rfl
    refine ⟨⟨_, data, ?_, ?_⟩, size, ?_, ?_, ?_⟩
    · rw [List.take_of_length_le long.le, long]
      rfl
    · exact fun _ below => absurd below (Nat.not_lt_zero _)
    · rw [size, capacity]
      decide
    · rw [capacity]
      decide
    · rw [capacity]
      decide
  refine ⟨⟨_, represents, ?_⟩, represents.held⟩
  exact fun _ _ below => absurd below (Nat.not_lt_zero _)

theorem heapPush_ok {grant : Grant} {array : HeapArray} (ok : HeapOk array)
    (reallocated : (heapGrow grant array).data ≠ none) (item : ExpireItem) :
    ∃ after, heapPush grant array item = some after ∧ HeapOk after ∧
      after.held = item ::ₘ array.held := by
  obtain ⟨heap, represents, ordered⟩ := ok
  obtain ⟨after, pushed, stands⟩ :=
    heapPush_represents represents reallocated item
  obtain ⟨sorted, items⟩ := heapPush_queue ordered item
  refine ⟨after, pushed, ⟨_, stands, sorted⟩, ?_⟩
  rw [stands.held, items, represents.held]

theorem heapPop_ok {array : HeapArray} (ok : HeapOk array) :
    ∃ after output, heapPop array = some (after, output) ∧ HeapOk after ∧
      Pops array.held output after.held := by
  obtain ⟨heap, represents, ordered⟩ := ok
  cases popped : Expire.heapPop heap with
  | none =>
      have empty : array.held = 0 :=
        represents.held.trans (heapPop_empty popped)
      exact ⟨array, none, heapPop_represents_none represents popped,
        ⟨heap, represents, ordered⟩, empty, empty⟩
  | some answer =>
      obtain ⟨item, rest⟩ := answer
      obtain ⟨after, ran, stands⟩ := heapPop_represents_some represents popped
      obtain ⟨sorted, least⟩ := heapPop_queue ordered popped
      refine ⟨after, some item, ran, ⟨_, stands, sorted⟩, ?_⟩
      rw [Pops, represents.held, stands.held]
      exact least

/-- A call on the heap. -/
inductive HeapCall where
  | push (grant : Grant) (item : ExpireItem)
  | pop

/-- The item that a call brings in. -/
def HeapCall.pushed : HeapCall → Option ExpireItem
  | .push _ item => some item
  | .pop => none

/-- One call with the item that it answers; the state is `none` after an access
outside the array. -/
def heapStep :
    Option HeapArray → HeapCall → Option HeapArray × Option ExpireItem
  | none, _ => (none, none)
  | some array, .push grant item => (heapPush grant array item, none)
  | some array, .pop =>
      match heapPop array with
      | none => (none, none)
      | some (after, output) => (some after, output)

/-- `realloc` does not fail. -/
def Reallocates : Option HeapArray → HeapCall → Prop
  | some array, .push grant _ => (heapGrow grant array).data ≠ none
  | _, _ => True

/-- The request of a call is granted. -/
def HeapCall.Granted : HeapCall → Prop
  | .push grant _ => grant.granted = true
  | .pop => True

theorem HeapOk.reallocates {array : HeapArray} (ok : HeapOk array)
    (few : array.size < 2 ^ 30) {call : HeapCall} (granted : call.Granted) :
    Reallocates (some array) call := by
  cases call with
  | push grant item => exact ok.grows few granted
  | pop => trivial

/-- The items that a run brings in. -/
def pushedItems (calls : List HeapCall) : Multiset ExpireItem :=
  calls.filterMap HeapCall.pushed

/-- The items that the answers of a run bring out. -/
def poppedItems (outputs : List (Option ExpireItem)) :
    Multiset ExpireItem :=
  outputs.reduceOption

theorem pushedItems_cons (call : HeapCall) (calls : List HeapCall) :
    pushedItems (call :: calls) =
      call.pushed.elim 0 (fun item => {item}) + pushedItems calls := by
  cases call with
  | push grant item =>
      exact (Multiset.singleton_add item (pushedItems calls)).symm
  | pop => exact (Multiset.zero_add _).symm

theorem poppedItems_cons (output : Option ExpireItem)
    (outputs : List (Option ExpireItem)) :
    poppedItems (output :: outputs) =
      output.elim 0 (fun item => {item}) + poppedItems outputs := by
  cases output with
  | none => exact (Multiset.zero_add _).symm
  | some item =>
      exact (Multiset.singleton_add item (poppedItems outputs)).symm

/-- One call keeps the heap and the account of its items. -/
theorem heapStep_ok {array : HeapArray} (ok : HeapOk array) (call : HeapCall)
    (reallocated : Reallocates (some array) call) :
    ∃ after, (heapStep (some array) call).1 = some after ∧ HeapOk after ∧
      call.pushed.elim 0 (fun item => {item}) + array.held =
        (heapStep (some array) call).2.elim 0 (fun item => {item}) +
          after.held := by
  cases call with
  | push grant item =>
      obtain ⟨after, pushed, fine, items⟩ := heapPush_ok ok reallocated item
      refine ⟨after, pushed, fine, ?_⟩
      rw [items]
      exact (Multiset.singleton_add _ _).trans (Multiset.zero_add _).symm
  | pop =>
      obtain ⟨after, output, popped, fine, pops⟩ := heapPop_ok ok
      rw [heapStep, popped]
      refine ⟨after, rfl, fine, ?_⟩
      cases output with
      | none => exact congrArg (0 + ·) (pops.1.trans pops.2.symm)
      | some item =>
          refine (Multiset.zero_add _).trans (pops.rest.trans ?_)
          exact (Multiset.singleton_add _ _).symm

/-- A run of calls. -/
theorem heapRun_ok {array : HeapArray} (ok : HeapOk array)
    {calls : List HeapCall}
    (reallocated : Along heapStep Reallocates (some array) calls) :
    ∃ after, (run heapStep (some array) calls).1 = some after ∧
      HeapOk after ∧
      pushedItems calls + array.held =
        poppedItems (run heapStep (some array) calls).2 + after.held := by
  induction calls generalizing array with
  | nil => exact ⟨array, rfl, ok, rfl⟩
  | cons call rest induction =>
      obtain ⟨next, stepped, fine, first⟩ :=
        heapStep_ok ok call reallocated.1
      have later := reallocated.2
      rw [stepped] at later
      obtain ⟨after, ran, final, second⟩ := induction fine later
      rw [run, stepped]
      refine ⟨after, ran, final, ?_⟩
      rw [pushedItems_cons, poppedItems_cons, add_right_comm, first,
        add_assoc, add_assoc, ← second, add_comm next.held]

/-- A call adds at most one item. -/
theorem heapStep_size {array after : HeapArray} (ok : HeapOk array)
    {call : HeapCall} (reallocated : Reallocates (some array) call)
    (stepped : (heapStep (some array) call).1 = some after) :
    after.size ≤ array.size + 1 := by
  obtain ⟨same, ran, fine, account⟩ := heapStep_ok ok call reallocated
  obtain rfl : same = after := Option.some.inj (ran.symm.trans stepped)
  have sizes := congrArg Multiset.card account
  rw [Multiset.card_add, Multiset.card_add, HeapArray.held_card ok,
    HeapArray.held_card fine] at sizes
  have one : (call.pushed.elim (0 : Multiset ExpireItem)
      (fun item => {item})).card ≤ 1 := by
    cases call <;> simp [HeapCall.pushed]
  omega

/-- `realloc` does not fail in a run of less than `2 ^ 30` calls whose requests
are granted. -/
theorem along_reallocates {array : HeapArray} (ok : HeapOk array)
    {calls : List HeapCall} (few : array.size + calls.length ≤ 2 ^ 30)
    (granted : ∀ call ∈ calls, call.Granted) :
    Along heapStep Reallocates (some array) calls := by
  induction calls generalizing array with
  | nil => trivial
  | cons call rest induction =>
      rw [List.length_cons] at few
      have here := ok.reallocates (by omega)
        (granted call List.mem_cons_self)
      obtain ⟨next, stepped, fine, -⟩ := heapStep_ok ok call here
      have size := heapStep_size ok here stepped
      refine ⟨here, ?_⟩
      rw [stepped]
      exact induction fine (by omega)
        (fun other member => granted other (List.mem_cons_of_mem _ member))

end Kivo.Server.ExpireHeap
