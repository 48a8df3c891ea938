import Kivo.Server.ExpireHeap

/-!
# Rounds of the expire thread

A round of the thread begins with a reading of the clock.  As long as the top
of the heap is due, the thread takes it out and pushes it to the delete queue;
the main thread registers timers and takes items from the delete queue at any
time in between.  When the round is over, what it has forwarded is what was due.
-/

namespace Kivo.Server.ExpireRounds

open Kivo.Clib
open Kivo.Clib.BinaryHeap (Drains)
open Kivo.Clib.Memory (Bytes)
open Kivo.Clib.Simulation
open Kivo.Server.Expire hiding heapInit heapPush heapPop
open Kivo.Server.ExpireHeap

/-! ## The thread -/

/-- The queues, the array and the place where the thread stands. -/
structure ThreadSystem where
  cmdQueue : ExpireQueue
  deleteQueue : ExpireQueue
  heap : HeapArray
  phase : ThreadPhase

/-- The system when `heap_init` has run. -/
def threadInit (grant : Grant) : ThreadSystem :=
  { cmdQueue := ExpireQueue.zero
    deleteQueue := ExpireQueue.zero
    heap := heapInit grant 4096
    phase := .collect }

/-- The read of `g_heap.data[0]`. -/
def heapTop (array : HeapArray) : Option ExpireItem :=
  array.data.bind (fun cells => cells[0]?)

/-- One step of `expire_thread_routine` on the array, with the item that it
forwards; there is no next system after an access outside the array. -/
def threadCall (now : Int) (grant : Grant) (system : ThreadSystem) :
    Option ThreadSystem × Option ExpireItem :=
  match system.phase with
  | .collect =>
      match queuePop system.cmdQueue with
      | some (item, queue) =>
          (some { system with cmdQueue := queue, phase := .insert item }, none)
      | none => (some { system with phase := .fire now }, none)
  | .insert item =>
      ((heapPush grant system.heap item).map
        (fun heap => { system with heap := heap, phase := .collect }), none)
  | .fire reading =>
      if system.heap.size = 0 then
        (some { system with phase := .collect }, none)
      else
        match heapTop system.heap with
        | none => (none, none)
        | some top =>
            if top.expireTime ≤ reading then
              match heapPop system.heap with
              | some (heap, some item) =>
                  (some
                    { system with
                      heap := heap
                      phase := .deliver reading item }, none)
              | _ => (none, none)
            else (some { system with phase := .collect }, none)
  | .deliver reading item =>
      match queuePush system.deleteQueue item with
      | some queue =>
          (some
            { system with
              deleteQueue := queue
              phase := .fire reading }, some item)
      | none => (some system, none)

/-- A step of the thread, an item that the main thread registers, or one that
it takes from the delete queue. -/
inductive ThreadEvent where
  | thread (now : Int) (grant : Grant)
  | register (item : ExpireItem)
  | take

/-- One event with the item that the thread forwards. -/
def threadStep :
    Option ThreadSystem → ThreadEvent →
      Option ThreadSystem × Option ExpireItem
  | none, _ => (none, none)
  | some system, .thread now grant => threadCall now grant system
  | some system, .register item =>
      (some
        { system with
          cmdQueue :=
            (queuePush system.cmdQueue item).getD system.cmdQueue }, none)
  | some system, .take =>
      (some
        { system with
          deleteQueue :=
            ((queuePop system.deleteQueue).map Prod.snd).getD
              system.deleteQueue }, none)

/-- `realloc` does not fail in a step of the thread. -/
def ThreadReallocates : Option ThreadSystem → ThreadEvent → Prop
  | some system, .thread _ grant =>
      ∀ item, system.phase = .insert item →
        (heapGrow grant system.heap).data ≠ none
  | _, _ => True

/-- The top of a heap that is not empty. -/
theorem heapTop_ok {array : HeapArray} (ok : HeapOk array)
    (nonempty : array.size ≠ 0) :
    ∃ top, heapTop array = some top ∧ top ∈ array.held ∧
      ∀ other ∈ array.held, top.expireTime ≤ other.expireTime := by
  obtain ⟨heap, represents, ordered⟩ := ok
  have positive : 0 < heap.size := by
    rw [← represents.size]
    exact Nat.pos_of_ne_zero nonempty
  obtain ⟨cells, data, -, mirrors⟩ := represents.allocated
  refine ⟨heap.data 0, ?_, ?_, ?_⟩
  · rw [heapTop, data, Option.bind_some, mirrors 0 positive]
  · rw [represents.held]
    exact BinaryHeap.mem_held.mpr ⟨0, positive, rfl⟩
  · intro other member
    rw [represents.held] at member
    obtain ⟨index, inside, rfl⟩ := BinaryHeap.mem_held.mp member
    exact ordered.root_le inside

/-- A step of the thread keeps the heap and adds at most one item to it. -/
theorem threadStep_ok {system : ThreadSystem} (ok : HeapOk system.heap)
    (event : ThreadEvent)
    (reallocated : ThreadReallocates (some system) event) :
    ∃ after, (threadStep (some system) event).1 = some after ∧
      HeapOk after.heap ∧ after.heap.size ≤ system.heap.size + 1 := by
  cases event with
  | register item => exact ⟨_, rfl, ok, Nat.le_succ _⟩
  | take => exact ⟨_, rfl, ok, Nat.le_succ _⟩
  | thread now grant =>
      rw [threadStep, threadCall]
      cases stands : system.phase with
      | collect =>
          dsimp only
          split
          · exact ⟨_, rfl, ok, Nat.le_succ _⟩
          · exact ⟨_, rfl, ok, Nat.le_succ _⟩
      | insert item =>
          obtain ⟨after, pushed, fine, items⟩ :=
            heapPush_ok ok (reallocated item stands) item
          have size := congrArg Multiset.card items
          rw [Multiset.card_cons, HeapArray.held_card ok,
            HeapArray.held_card fine] at size
          dsimp only
          rw [pushed, Option.map_some]
          exact ⟨_, rfl, fine, size.le⟩
      | fire reading =>
          dsimp only
          split_ifs with empty
          · exact ⟨_, rfl, ok, Nat.le_succ _⟩
          · obtain ⟨top, read, inside, -⟩ := heapTop_ok ok empty
            obtain ⟨after, output, popped, fine, pops⟩ := heapPop_ok ok
            rw [read]
            dsimp only
            split_ifs
            · cases output with
              | none =>
                  rw [pops.1] at inside
                  exact absurd inside (Multiset.notMem_zero top)
              | some item =>
                  have size := congrArg Multiset.card pops.rest
                  rw [Multiset.card_cons, HeapArray.held_card ok,
                    HeapArray.held_card fine] at size
                  rw [popped]
                  refine ⟨_, rfl, fine, ?_⟩
                  dsimp only
                  omega
            · exact ⟨_, rfl, ok, Nat.le_succ _⟩
      | deliver reading item =>
          dsimp only
          split
          · exact ⟨_, rfl, ok, Nat.le_succ _⟩
          · exact ⟨_, rfl, ok, Nat.le_succ _⟩

/-- The request of an event is granted. -/
def ThreadEvent.Granted : ThreadEvent → Prop
  | .thread _ grant => grant.granted = true
  | _ => True

/-- `realloc` does not fail in a run of less than `2 ^ 30` events whose
requests are granted. -/
theorem along_threadReallocates {system : ThreadSystem}
    (ok : HeapOk system.heap) {events : List ThreadEvent}
    (few : system.heap.size + events.length ≤ 2 ^ 30)
    (granted : ∀ event ∈ events, event.Granted) :
    Along threadStep ThreadReallocates (some system) events := by
  induction events generalizing system with
  | nil => trivial
  | cons event rest induction =>
      rw [List.length_cons] at few
      have own := granted event List.mem_cons_self
      have here : ThreadReallocates (some system) event := by
        cases event with
        | thread now grant =>
            exact fun _ _ => ok.grows (by omega) own
        | register item => trivial
        | take => trivial
      obtain ⟨next, stepped, fine, size⟩ := threadStep_ok ok event here
      refine ⟨here, ?_⟩
      rw [stepped]
      exact induction fine (by omega)
        (fun other member => granted other (List.mem_cons_of_mem _ member))

/-! ## The thread of the system -/

/-- A thread with an array stands for the thread of the system. -/
structure ThreadRepresents (system : ThreadSystem) (expire : ExpireSystem) :
    Prop where
  cmdQueue : system.cmdQueue = expire.cmdQueue
  deleteQueue : system.deleteQueue = expire.deleteQueue
  heap : Represents system.heap expire.heap
  phase : system.phase = expire.phase

/-- The steps of the thread are those of the system. -/
theorem threadCall_represents {system : ThreadSystem} {expire : ExpireSystem}
    (represents : ThreadRepresents system expire) (now : Int) (grant : Grant)
    (reallocated : ThreadReallocates (some system) (.thread now grant)) :
    ∃ after, (threadCall now grant system).1 = some after ∧
      ThreadRepresents after (expireThreadStep now expire) := by
  obtain ⟨cmdQueue, deleteQueue, data, phase⟩ := expire
  obtain ⟨rfl, rfl, heap, rfl⟩ := represents
  dsimp only at heap
  rw [threadCall, expireThreadStep]
  cases stands : system.phase with
  | collect =>
      cases queuePop system.cmdQueue with
      | none => exact ⟨_, rfl, rfl, rfl, heap, rfl⟩
      | some answer => exact ⟨_, rfl, rfl, rfl, heap, rfl⟩
  | insert item =>
      obtain ⟨after, pushed, next⟩ :=
        heapPush_represents heap (reallocated item stands) item
      dsimp only
      rw [pushed, Option.map_some]
      exact ⟨_, rfl, rfl, rfl, next, rfl⟩
  | fire reading =>
      dsimp only
      by_cases empty : system.heap.size = 0
      · have nothing : ¬ 0 < data.size := by
          rw [← heap.size, empty]
          exact Nat.lt_irrefl 0
        rw [if_pos empty, if_neg (fun ripe => nothing ripe.1)]
        exact ⟨_, rfl, rfl, rfl, heap, rfl⟩
      · have positive : 0 < data.size := by
          rw [← heap.size]
          exact Nat.pos_of_ne_zero empty
        obtain ⟨cells, here, -, mirrors⟩ := heap.allocated
        have read : heapTop system.heap = some (data.data 0) := by
          rw [heapTop, here, Option.bind_some, mirrors 0 positive]
        rw [if_neg empty, read]
        dsimp only
        by_cases due : (data.data 0).expireTime ≤ reading
        · rw [if_pos due, if_pos ⟨positive, due⟩]
          have popped : Expire.heapPop data = some _ :=
            if_neg (Nat.ne_of_gt positive)
          obtain ⟨after, ran, next⟩ := heapPop_represents_some heap popped
          rw [ran, popped]
          exact ⟨_, rfl, rfl, rfl, next, rfl⟩
        · rw [if_neg due, if_neg (fun ripe => due ripe.2)]
          exact ⟨_, rfl, rfl, rfl, heap, rfl⟩
  | deliver reading item =>
      dsimp only
      cases queuePush system.deleteQueue item with
      | none => exact ⟨_, rfl, rfl, rfl, heap, stands⟩
      | some queue => exact ⟨_, rfl, rfl, rfl, heap, rfl⟩

/-! ## Rounds -/

/-- What the thread has in hand for the delete queue. -/
def inHand : ThreadPhase → List ExpireItem
  | .deliver _ item => [item]
  | _ => []

/-- The reading of the clock of the round that the thread is in. -/
def roundOf : ThreadPhase → Option Int
  | .fire now => some now
  | .deliver now _ => some now
  | _ => none

/-- The event happens during a round. -/
def InRound (now : Int) (state : Option ThreadSystem) (_ : ThreadEvent) :
    Prop :=
  state.bind (fun system => roundOf system.phase) = some now

/-- Where a round stands: what has been forwarded and is in hand has been taken
out in order, and at the end nothing is due. -/
structure Rounds (now : Int) (start : Multiset ExpireItem)
    (forwarded : List ExpireItem) (system : ThreadSystem) : Prop where
  heap : HeapOk system.heap
  drains : Drains ExpireItem.expireTime now start
    (forwarded ++ inHand system.phase) system.heap.held
  phase : roundOf system.phase = some now ∨
    system.phase = .collect ∧
      ∀ other ∈ system.heap.held, now < other.expireTime

section Round

variable {now : Int} {start : Multiset ExpireItem}
  {forwarded : List ExpireItem} {system : ThreadSystem}

/-- At the test of the top, either nothing is due or the least item is taken
in hand. -/
theorem Rounds.fire (rounds : Rounds now start forwarded system)
    (stands : system.phase = .fire now) (clock : Int) (grant : Grant) :
    ∃ after, threadCall clock grant system = (some after, none) ∧
      Rounds now start forwarded after := by
  obtain ⟨ok, drains, -⟩ := rounds
  rw [stands] at drains
  rw [threadCall, stands]
  dsimp only
  split_ifs with empty
  · refine ⟨_, rfl, ok, drains, Or.inr ⟨rfl, ?_⟩⟩
    intro other member
    rw [HeapArray.held, empty, List.take_zero] at member
    exact absurd member (Multiset.notMem_zero other)
  · obtain ⟨top, read, inside, least⟩ := heapTop_ok ok empty
    obtain ⟨after, output, popped, fine, pops⟩ := heapPop_ok ok
    rw [read]
    dsimp only
    split_ifs with due
    · cases output with
      | none =>
          rw [pops.1] at inside
          exact absurd inside (Multiset.notMem_zero top)
      | some item =>
          rw [popped]
          refine ⟨_, rfl, fine, ?_, Or.inl rfl⟩
          have ripe : item.expireTime ≤ now :=
            (pops.least top inside).trans due
          simp only [inHand, List.append_nil] at drains
          exact drains.take ripe pops
    · refine ⟨_, rfl, ok, drains, Or.inr ⟨rfl, ?_⟩⟩
      intro other member
      exact (not_le.mp due).trans_le (least other member)

/-- One event of a round. -/
theorem Rounds.step (rounds : Rounds now start forwarded system)
    (on : roundOf system.phase = some now) (event : ThreadEvent) :
    ∃ after, (threadStep (some system) event).1 = some after ∧
      Rounds now start
        (forwarded ++ (threadStep (some system) event).2.toList) after := by
  cases event with
  | register item =>
      refine ⟨_, rfl, rounds.heap, ?_, rounds.phase⟩
      rw [threadStep, Option.toList_none, List.append_nil]
      exact rounds.drains
  | take =>
      refine ⟨_, rfl, rounds.heap, ?_, rounds.phase⟩
      rw [threadStep, Option.toList_none, List.append_nil]
      exact rounds.drains
  | thread clock grant =>
      cases stands : system.phase with
      | collect =>
          rw [stands] at on
          cases on
      | insert item =>
          rw [stands] at on
          cases on
      | fire reading =>
          rw [stands] at on
          cases on
          obtain ⟨after, ran, next⟩ := rounds.fire stands clock grant
          rw [threadStep, ran]
          refine ⟨after, rfl, ?_⟩
          rw [Option.toList_none, List.append_nil]
          exact next
      | deliver reading item =>
          rw [stands] at on
          cases on
          obtain ⟨ok, drains, -⟩ := rounds
          rw [threadStep, threadCall, stands]
          dsimp only
          split
          · refine ⟨_, rfl, ok, ?_, Or.inl rfl⟩
            rw [stands] at drains
            simp only [inHand, List.append_nil]
            exact drains
          · refine ⟨_, rfl, ok, ?_, Or.inl ?_⟩
            · rw [Option.toList_none, List.append_nil]
              exact drains
            · rw [stands]
              rfl

/-- The events of a round, in any order. -/
theorem Rounds.run (rounds : Rounds now start forwarded system)
    {events : List ThreadEvent}
    (inside : Along threadStep (InRound now) (some system) events) :
    ∃ after, (run threadStep (some system) events).1 = some after ∧
      Rounds now start
        (forwarded ++
          (run threadStep (some system) events).2.reduceOption) after := by
  induction events generalizing system forwarded with
  | nil =>
      refine ⟨system, rfl, ?_⟩
      rw [Simulation.run, List.reduceOption_nil, List.append_nil]
      exact rounds
  | cons event rest induction =>
      obtain ⟨next, stepped, keeps⟩ := rounds.step inside.1 event
      have later := inside.2
      rw [stepped] at later
      obtain ⟨after, ran, last⟩ := induction keeps later
      rw [Simulation.run, stepped]
      refine ⟨after, ran, ?_⟩
      rw [List.append_assoc] at last
      cases output : (threadStep (some system) event).2 with
      | none =>
          rw [output] at last
          exact last
      | some item =>
          rw [output] at last
          exact last

/-- The thread does not wait for room in the delete queue. -/
def Advances (state : Option ThreadSystem) : ThreadEvent → Prop
  | .thread _ _ =>
      ∀ system reading item, state = some system →
        system.phase = .deliver reading item →
          queuePush system.deleteQueue item ≠ none
  | _ => True

/-- An event is a step of the thread. -/
def ThreadEvent.isThread : ThreadEvent → Bool
  | .thread _ _ => true
  | _ => false

/-- The steps that are left to a round. -/
def stepsLeft (system : ThreadSystem) : Nat :=
  match system.phase with
  | .fire _ => 2 * system.heap.size + 1
  | .deliver _ _ => 2 * system.heap.size + 2
  | _ => 0

/-- A step of the thread that does not wait brings the round closer to its
end, and nothing else moves it. -/
theorem stepsLeft_step (ok : HeapOk system.heap)
    (on : roundOf system.phase = some now) (event : ThreadEvent)
    (advances : Advances (some system) event) {after : ThreadSystem}
    (stepped : (threadStep (some system) event).1 = some after) :
    stepsLeft after + event.isThread.toNat ≤ stepsLeft system := by
  cases event with
  | register item =>
      cases stepped
      exact Nat.le_refl _
  | take =>
      cases stepped
      exact Nat.le_refl _
  | thread clock grant =>
      rw [threadStep, threadCall] at stepped
      cases stands : system.phase with
      | collect =>
          rw [stands] at on
          cases on
      | insert item =>
          rw [stands] at on
          cases on
      | fire reading =>
          rw [stands] at stepped
          dsimp only at stepped
          split_ifs at stepped with empty
          · cases stepped
            rw [stepsLeft, stepsLeft, stands]
            exact Nat.succ_le_succ (Nat.zero_le _)
          · obtain ⟨top, read, inside, least⟩ := heapTop_ok ok empty
            obtain ⟨rest, output, popped, fine, pops⟩ := heapPop_ok ok
            rw [read] at stepped
            dsimp only at stepped
            split_ifs at stepped
            · rw [popped] at stepped
              cases output with
              | none => cases stepped
              | some item =>
                  cases stepped
                  have smaller := congrArg Multiset.card pops.rest
                  rw [Multiset.card_cons, HeapArray.held_card ok,
                    HeapArray.held_card fine] at smaller
                  rw [stepsLeft, stepsLeft, stands, smaller]
                  simp only [ThreadEvent.isThread, Bool.toNat_true]
                  omega
            · cases stepped
              rw [stepsLeft, stepsLeft, stands]
              exact Nat.succ_le_succ (Nat.zero_le _)
      | deliver reading item =>
          have room := advances system reading item rfl stands
          rw [stands] at stepped
          dsimp only at stepped
          split at stepped
          · cases stepped
            rw [stepsLeft, stepsLeft, stands]
            exact Nat.le_refl _
          · rename_i full
            exact absurd full room

/-- A round has at most two steps for every item and one more. -/
theorem stepsLeft_run (rounds : Rounds now start forwarded system)
    {events : List ThreadEvent}
    (inside : Along threadStep (InRound now) (some system) events)
    (advancing : Along threadStep Advances (some system) events) :
    events.countP ThreadEvent.isThread ≤ stepsLeft system := by
  induction events generalizing system forwarded with
  | nil => exact Nat.zero_le _
  | cons event rest induction =>
      obtain ⟨next, stepped, keeps⟩ := rounds.step inside.1 event
      have fewer := stepsLeft_step rounds.heap inside.1 event advancing.1
        stepped
      have later := inside.2
      have onward := advancing.2
      rw [stepped] at later onward
      have rest := induction keeps later onward
      rw [List.countP_cons]
      cases kind : event.isThread with
      | false =>
          rw [kind] at fewer
          exact rest.trans (Nat.le_of_add_right_le fewer)
      | true =>
          rw [kind] at fewer
          exact (Nat.succ_le_succ rest).trans fewer

end Round

/-- A run of the thread keeps the heap. -/
theorem threadRun_ok {system : ThreadSystem} (ok : HeapOk system.heap)
    {events : List ThreadEvent}
    (reallocated : Along threadStep ThreadReallocates (some system) events) :
    ∃ after, (run threadStep (some system) events).1 = some after ∧
      HeapOk after.heap := by
  induction events generalizing system with
  | nil => exact ⟨system, rfl, ok⟩
  | cons event rest induction =>
      obtain ⟨next, stepped, fine, -⟩ := threadStep_ok ok event reallocated.1
      have later := reallocated.2
      rw [stepped] at later
      obtain ⟨after, ran, final⟩ := induction fine later
      rw [run, stepped]
      exact ⟨after, ran, final⟩

/--
What a round forwards: items that are due, in the order of their times; when
the round is over, these are all items of the heap that are due, and the others
are left.  Without waiting for the delete queue the round has at most two steps
for every item and one more.
-/
def Forwards (now : Int) (system : ThreadSystem) (round : List ThreadEvent) :
    Prop :=
  ∃ last, (run threadStep (some system) round).1 = some last ∧
    let forwarded := (run threadStep (some system) round).2.reduceOption
    forwarded.Pairwise
        (fun first second => first.expireTime ≤ second.expireTime) ∧
      (∀ item ∈ forwarded, item.expireTime ≤ now) ∧
      (last.phase = .collect →
        (forwarded : Multiset ExpireItem) =
            system.heap.held.filter (fun item => item.expireTime ≤ now) ∧
          last.heap.held =
            system.heap.held.filter (fun item => now < item.expireTime)) ∧
      (Along threadStep Advances (some system) round →
        round.countP ThreadEvent.isThread ≤ 2 * system.heap.size + 1)

theorem forwards_of_ok {now : Int} {system : ThreadSystem}
    {round : List ThreadEvent} (ok : HeapOk system.heap)
    (stands : system.phase = .fire now)
    (inside : Along threadStep (InRound now) (some system) round) :
    Forwards now system round := by
  have rounds : Rounds now system.heap.held [] system := by
    refine ⟨ok, ?_, ?_⟩
    · rw [stands]
      exact Drains.start
    · rw [stands]
      exact Or.inl rfl
  obtain ⟨last, ran, later⟩ := rounds.run inside
  rw [List.nil_append] at later
  refine ⟨last, ran, ?_, ?_, ?_, ?_⟩
  · exact (List.pairwise_append.mp later.drains.sorted).1
  · intro item member
    exact later.drains.due item (List.mem_append_left _ member)
  · intro ended
    have drains := later.drains
    rw [ended] at drains
    simp only [inHand, List.append_nil] at drains
    refine drains.complete ?_
    rcases later.phase with on | ⟨-, done⟩
    · rw [ended] at on
      cases on
    · exact done
  · intro advancing
    have bound := stepsLeft_run rounds inside advancing
    rw [stepsLeft, stands] at bound
    exact bound

/-- The heap of the expire thread is a priority queue on the time, whatever
calls are made and however often the array grows, and each round of the thread
forwards what is due. -/
theorem expire_heap {grant : Grant} (granted : grant.granted = true) :
    (∀ calls : List HeapCall,
      Along heapStep Reallocates (some (heapInit grant 4096)) calls →
        ∃ array,
          (run heapStep (some (heapInit grant 4096)) calls).1 = some array ∧
          array.held.card = array.size ∧
          array.MinOrdered ∧
          pushedItems calls =
            poppedItems (run heapStep (some (heapInit grant 4096)) calls).2 +
              array.held ∧
          ∃ after output, heapPop array = some (after, output) ∧
            Pops array.held output after.held) ∧
      ∀ events : List ThreadEvent,
        Along threadStep ThreadReallocates (some (threadInit grant)) events →
          ∃ system,
            (run threadStep (some (threadInit grant)) events).1 =
              some system ∧
            system.heap.MinOrdered ∧
            ∀ now round, system.phase = .fire now →
              Along threadStep (InRound now) (some system) round →
                Forwards now system round := by
  obtain ⟨start, empty⟩ := heapInit_ok granted
  constructor
  · intro calls reallocated
    obtain ⟨array, ran, ok, account⟩ := heapRun_ok start reallocated
    obtain ⟨heap, represents, ordered⟩ := ok
    obtain ⟨after, output, popped, -, pops⟩ :=
      heapPop_ok ⟨heap, represents, ordered⟩
    rw [empty, add_zero] at account
    exact ⟨array, ran, HeapArray.held_card ⟨heap, represents, ordered⟩,
      represents.minOrdered ordered, account, after, output, popped, pops⟩
  · intro events reallocated
    have fresh : HeapOk (threadInit grant).heap := start
    obtain ⟨system, ran, ok⟩ := threadRun_ok fresh reallocated
    refine ⟨system, ran, ?_, ?_⟩
    · obtain ⟨heap, represents, ordered⟩ := ok
      exact represents.minOrdered ordered
    · exact fun now round stands inside => forwards_of_ok ok stands inside

/-- An allocator that grants every request. -/
def granting : Grant :=
  { granted := true, junk := fun _ => ExpireItem.zero }

/-- A timer of the hash table. -/
def timer (key : Bytes) (expireTime : Int) : ExpireItem :=
  { type := .hash, key := key, hashCache := 0, expireTime := expireTime }

/-- Many timers, the last one due first. -/
def manyTimers (count : Nat) : List HeapCall :=
  (List.range count).map (fun n : Nat =>
    .push granting (timer [] (count - n)))

/-- Three timers are registered and collected. -/
def threeTimers : List ThreadEvent :=
  [.register (timer [1] 30), .register (timer [2] 10),
      .register (timer [3] 20)] ++
    List.replicate 7 (.thread 25 granting)

/-- A round at time 25: two of the three timers are due. -/
def firstRound : List ThreadEvent :=
  List.replicate 5 (.thread 99 granting)

theorem pushedItems_manyTimers (count : Nat) :
    (pushedItems (manyTimers count)).card = count := by
  simp [pushedItems, manyTimers, HeapCall.pushed, List.filterMap_map,
    Function.comp_def]

theorem length_manyTimers (count : Nat) :
    (manyTimers count).length = count := by
  rw [manyTimers, List.length_map, List.length_range]

theorem manyTimers_granted (count : Nat) :
    ∀ call ∈ manyTimers count, call.Granted := by
  simp [manyTimers, HeapCall.Granted, granting]

theorem manyTimers_reallocate {count : Nat} (few : count ≤ 2 ^ 30) :
    Along heapStep Reallocates (some (heapInit granting 4096))
      (manyTimers count) := by
  have fresh := (@heapInit_ok granting rfl).1
  have empty : (heapInit granting 4096).size = 0 := rfl
  refine along_reallocates fresh ?_ (manyTimers_granted count)
  rw [length_manyTimers, empty, Nat.zero_add]
  exact few

theorem manyTimers_pushes (count : Nat) :
    ∀ call ∈ manyTimers count, call.pushed ≠ none := by
  simp [manyTimers, HeapCall.pushed]

/-- Pushes bring nothing out. -/
theorem poppedItems_pushes {calls : List HeapCall}
    (pushes : ∀ call ∈ calls, call.pushed ≠ none)
    (state : Option HeapArray) :
    poppedItems (run heapStep state calls).2 = 0 := by
  induction calls generalizing state with
  | nil => rfl
  | cons call rest induction =>
      have none_ : (heapStep state call).2 = none := by
        cases call with
        | push grant item => cases state <;> rfl
        | pop => exact absurd rfl (pushes .pop List.mem_cons_self)
      rw [run, poppedItems_cons, none_,
        induction (fun other member =>
          pushes other (List.mem_cons_of_mem _ member))]
      rfl

/-- One timer more than the array is allocated for makes it grow; the thread
forwards two of three timers. -/
theorem expire_heap_grown :
    (∃ array,
      (run heapStep (some (heapInit granting 4096))
          (manyTimers 4097)).1 =
          some array ∧
        array.size = 4097 ∧ array.MinOrdered ∧
        ∃ after item, heapPop array = some (after, some item) ∧
          ∀ other ∈ array.held, item.expireTime ≤ other.expireTime) ∧
      ∃ system,
        (run threadStep (some (threadInit granting)) threeTimers).1 =
            some system ∧
          Forwards 25 system firstRound ∧
          (run threadStep (some system) firstRound).2.reduceOption =
            [timer [2] 10, timer [3] 20] := by
  have fresh := (@heapInit_ok granting rfl).1
  have heap := @expire_heap granting rfl
  constructor
  · generalize many : 4097 = count
    have reallocated := @manyTimers_reallocate count (by omega)
    obtain ⟨array, ran, card, ordered, account, after, output, popped, pops⟩ :=
      heap.1 (manyTimers count) reallocated
    rw [poppedItems_pushes (manyTimers_pushes count), Multiset.zero_add]
      at account
    have size : array.size = count := by
      rw [← card, ← account, pushedItems_manyTimers]
    refine ⟨array, ran, size, ordered, after, ?_⟩
    cases output with
    | none =>
        rw [pops.1, Multiset.card_zero, size, ← many] at card
        cases card
    | some item => exact ⟨item, popped, pops.least⟩
  · obtain ⟨system, ran, -, forwards⟩ := heap.2 threeTimers
      (along_threadReallocates fresh (by decide)
        (by simp [threeTimers, ThreadEvent.Granted, granting]))
    refine ⟨system, ran, forwards 25 firstRound ?_ ?_, ?_⟩
    · have phase : ((run threadStep (some (threadInit granting))
          threeTimers).1.map ThreadSystem.phase) = some (.fire 25) := by
        decide +kernel
      rw [ran] at phase
      exact Option.some.inj phase
    · rw [← ran, firstRound]
      simp only [List.replicate, Along, InRound, and_true]
      decide +kernel
    · rw [← ran]
      decide +kernel

end Kivo.Server.ExpireRounds
