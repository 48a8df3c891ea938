import Mathlib.Tactic.Abel
import Kivo.Server.ContextTime
import Kivo.Server.ExpireHeap

/-!
# Every timer is delivered once

A timer that `expire_push_cmd` accepts wanders from the command queue to the
heap of the expire thread, from there to the delete queue and from there to
`engine_del_if_expired`.  The handlers, the thread and the loop of
`expire_process_deletes` take their steps in any order.

No timer is lost or doubled on the way: what was accepted is what was processed
together with what is still held.  Nothing is processed before its time.  And
nothing stays: when all times have passed and the thread and the loop go on as
long as they find work, they come to an end, and everything that was accepted
has been processed.
-/

namespace Kivo.Server.TimerRuns

open Kivo.Clib
open Kivo.Clib.Memory
open Kivo.Clib.Simulation
open Kivo.Server.State
open Kivo.Server.Expire
open Kivo.Server.ExpireHeap (heapItems HeapOrdered heapPush_queue heapPop_queue)
open Kivo.Server.Timers
open Kivo.Server.Commands
open Kivo.Server.CommandTable
open Kivo.Server.Handlers
open Kivo.Server.ActiveExpiry
open Kivo.Server.ContextTime

/-! ## What is held -/

/-- The timers in a queue. -/
def queued (q : ExpireQueue) : Multiset ExpireItem :=
  ExpireQueue.contents q

/-- What the thread has in hand. -/
def carried : ThreadPhase → Multiset ExpireItem
  | .collect => 0
  | .insert item => {item}
  | .fire _ => 0
  | .deliver _ item => {item}

/-- The timers that the system holds. -/
def held (expire : ExpireSystem) : Multiset ExpireItem :=
  queued expire.cmdQueue + carried expire.phase + heapItems expire.heap +
    queued expire.deleteQueue

/-- The queues and the heap are in order. -/
structure InOrder (expire : ExpireSystem) : Prop where
  cmd : QueueOk expire.cmdQueue
  delete : QueueOk expire.deleteQueue
  heap : HeapOrdered expire.heap

theorem inOrder_init : InOrder expireSystemInit :=
  ⟨queueOk_zero, queueOk_zero,
    fun index _ below => absurd below (Nat.not_lt_zero index)⟩

theorem queuePush_queued {q after : ExpireQueue} {item : ExpireItem}
    (ok : QueueOk q) (pushed : queuePush q item = some after) :
    queued after = queued q + {item} := by
  rw [queued, queued, (queuePush_contents ok pushed).2, ← Multiset.coe_add,
    Multiset.coe_singleton]

theorem queuePop_queued {q after : ExpireQueue} {item : ExpireItem}
    (ok : QueueOk q) (popped : queuePop q = some (item, after)) :
    queued q = {item} + queued after := by
  rw [queued, queued, (queuePop_contents ok popped).2, ← Multiset.cons_coe,
    Multiset.singleton_add]

theorem queuePop_none {q : ExpireQueue} (popped : queuePop q = none) :
    ExpireQueue.contents q = [] := by
  rw [queuePop] at popped
  split_ifs at popped with empty
  have count : ExpireQueue.count q = 0 := by
    rw [ExpireQueue.count, empty, Nat.add_sub_cancel_left, Nat.mod_self]
  rw [ExpireQueue.contents, count]
  rfl

theorem held_init : held expireSystemInit = 0 := by
  have queue : queued ExpireQueue.zero = 0 := by
    rw [queued, queuePop_none (show queuePop ExpireQueue.zero = none from
      if_pos rfl)]
    rfl
  have heap : heapItems heapInit = 0 := rfl
  simp only [held, expireSystemInit, queue, carried, heap, add_zero]

/-- A heap with items is not empty. -/
theorem heap_size_pos {heap : MinHeap} (some : heapItems heap ≠ 0) :
    0 < heap.size := by
  refine Nat.pos_of_ne_zero (fun empty => some ?_)
  rw [heapItems, empty]
  rfl

section Steps

variable {expire : ExpireSystem} (inOrder : InOrder expire)

include inOrder

/-- A step of the thread loses nothing and makes nothing up. -/
theorem threadStep_held (now : Int) :
    InOrder (expireThreadStep now expire) ∧
      held (expireThreadStep now expire) = held expire := by
  obtain ⟨cmd, delete, heap⟩ := inOrder
  have move := expireThreadStep_move now expire
  generalize expireThreadStep now expire = next at move ⊢
  cases move with
  | take stands popped =>
      refine ⟨⟨(queuePop_contents cmd popped).1, delete, heap⟩, ?_⟩
      simp only [held, stands, carried, queuePop_queued cmd popped]
      abel
  | look stands empty =>
      refine ⟨⟨cmd, delete, heap⟩, ?_⟩
      simp only [held, stands, carried]
  | @insert item stands =>
      obtain ⟨ordered, items⟩ := heapPush_queue heap item
      refine ⟨⟨cmd, delete, ordered⟩, ?_⟩
      simp only [held, stands, carried, items, ← Multiset.singleton_add]
      abel
  | ripen stands ripe popped =>
      obtain ⟨ordered, taken⟩ := heapPop_queue heap popped
      refine ⟨⟨cmd, delete, ordered⟩, ?_⟩
      simp only [held, stands, carried, taken.rest, ← Multiset.singleton_add]
      abel
  | again stands idle =>
      refine ⟨⟨cmd, delete, heap⟩, ?_⟩
      simp only [held, stands, carried]
  | deliver stands pushed =>
      refine ⟨⟨cmd, (queuePush_contents delete pushed).1, heap⟩, ?_⟩
      simp only [held, stands, carried, queuePush_queued delete pushed]
      abel
  | wait stands full => exact ⟨⟨cmd, delete, heap⟩, rfl⟩

/-- A timer that is handed over is held from then on. -/
theorem pushCmd_held (stack : UInt64) (type : ExpireType) (key : Bytes)
    (time : Int) :
    InOrder (expirePushCmd stack type key time expire) ∧
      ∃ accepted,
        ExpireQueue.contents
            (expirePushCmd stack type key time expire).cmdQueue =
            ExpireQueue.contents expire.cmdQueue ++ accepted ∧
          held (expirePushCmd stack type key time expire) =
            held expire + (accepted : Multiset ExpireItem) := by
  obtain ⟨cmd, delete, heap⟩ := inOrder
  rcases expirePushCmd_cases stack type key time expire with
    same | ⟨item, queue, -, -, -, pushed, handed⟩
  · rw [same]
    exact ⟨⟨cmd, delete, heap⟩, [], (List.append_nil _).symm,
      (add_zero _).symm⟩
  · rw [handed]
    obtain ⟨ok, contents⟩ := queuePush_contents cmd pushed
    refine ⟨⟨ok, delete, heap⟩, [item], contents, ?_⟩
    simp only [held, queuePush_queued cmd pushed, Multiset.coe_singleton]
    abel

end Steps

/-! ## Events -/

/-- What a command has appended to the command queue. -/
def acceptedBetween (before after : ExpireSystem) : List ExpireItem :=
  (ExpireQueue.contents after.cmdQueue).drop
    (ExpireQueue.contents before.cmdQueue).length

/-- The timers that the loop of `expire_process_deletes` takes, one in each
iteration. -/
def takenIn (flags : Flags) : Nat → Globals Store → List ExpireItem
  | 0, _ => []
  | left + 1, globals =>
      match expireProcessOne flags globals with
      | none => []
      | some next =>
          (queuePop globals.store.expire.deleteQueue).toList.map Prod.fst ++
            takenIn flags left next

/-- The timers that an event brings in and those that it processes. -/
def timersOf (flags : Flags) (machine : Machine) (event : Event) :
    List ExpireItem × List ExpireItem :=
  match event with
  | .command _ _ _ =>
      (acceptedBetween machine.globals.store.expire
        (machineStep flags machine event).1.globals.store.expire, [])
  | .thread _ => ([], [])
  | .process _ left => ([], takenIn flags left machine.globals)

/-- An event with its timers. -/
def timedStep (flags : Flags) (machine : Machine) (event : Event) :
    Machine × (List ExpireItem × List ExpireItem) :=
  ((machineStep flags machine event).1, timersOf flags machine event)

/-- The timers that a run has brought in. -/
def acceptedIn (timers : List (List ExpireItem × List ExpireItem)) :
    List ExpireItem :=
  timers.flatMap Prod.fst

/-- The timers that a run has processed. -/
def processedIn (timers : List (List ExpireItem × List ExpireItem)) :
    List ExpireItem :=
  timers.flatMap Prod.snd

section Events

variable {flags : Flags}

/-- The loop takes timers off the front of the delete queue, at least one when
it is not empty. -/
theorem expireProcessLoop_queue (left : Nat) {globals : Globals Store}
    (ok : QueueOk globals.store.expire.deleteQueue) :
    ∃ queue,
      (expireProcessLoop flags left globals).store.expire =
          { globals.store.expire with deleteQueue := queue } ∧
        QueueOk queue ∧
        ExpireQueue.contents globals.store.expire.deleteQueue =
          takenIn flags left globals ++ ExpireQueue.contents queue := by
  induction left generalizing globals with
  | zero => exact ⟨_, rfl, ok, (List.nil_append _).symm⟩
  | succ left induction =>
      rw [expireProcessLoop, takenIn]
      cases processed : expireProcessOne flags globals with
      | none => exact ⟨_, rfl, ok, (List.nil_append _).symm⟩
      | some next =>
          obtain ⟨item, rest, popped, store⟩ :=
            expireProcessOne_store processed
          obtain ⟨okRest, contents⟩ := queuePop_contents ok popped
          obtain ⟨queue, final, okLast, others⟩ :=
            @induction next (by rw [store]; exact okRest)
          rw [store] at final others
          refine ⟨queue, final, okLast, ?_⟩
          rw [popped, contents]
          exact congrArg (item :: ·) others

theorem takenIn_ne_nil {left : Nat} (some : 0 < left)
    {globals : Globals Store}
    (waiting : queuePop globals.store.expire.deleteQueue ≠ none) :
    takenIn flags left globals ≠ [] := by
  obtain ⟨left, rfl⟩ : ∃ fewer, left = fewer + 1 := ⟨left - 1, by omega⟩
  obtain ⟨popped, there⟩ := Option.ne_none_iff_exists'.mp waiting
  rw [takenIn, expireProcessOne, there]
  exact List.cons_ne_nil _ _

/-- The loop takes timers that have come due. -/
theorem expireProcessLoop_held (left : Nat) {globals : Globals Store}
    (inOrder : InOrder globals.store.expire) :
    InOrder (expireProcessLoop flags left globals).store.expire ∧
      held globals.store.expire =
        (takenIn flags left globals : Multiset ExpireItem) +
          held (expireProcessLoop flags left globals).store.expire := by
  obtain ⟨queue, final, ok, contents⟩ :=
    @expireProcessLoop_queue flags left globals inOrder.delete
  rw [final]
  refine ⟨⟨inOrder.cmd, ok, inOrder.heap⟩, ?_⟩
  have split : queued globals.store.expire.deleteQueue =
      (takenIn flags left globals : Multiset ExpireItem) + queued queue := by
    rw [queued, contents, ← Multiset.coe_add]
    rfl
  simp only [held, split]
  abel

theorem expireProcessLoop_returning (left : Nat) {globals : Globals Store}
    {clock : Int} (returning : Returning clock globals.store.expire) :
    Returning clock (expireProcessLoop flags left globals).store.expire ∧
      ∀ item ∈ takenIn flags left globals, item.expireTime ≤ clock := by
  obtain ⟨ok, phase, delete⟩ := returning
  obtain ⟨queue, final, okLast, contents⟩ :=
    @expireProcessLoop_queue flags left globals ok
  rw [contents] at delete
  rw [final]
  exact ⟨⟨okLast, phase, fun item member => delete item
    (List.mem_append_right _ member)⟩,
    fun item member => delete item (List.mem_append_left _ member)⟩

/-- What holds of the system after some events: everything accepted has been
processed, when it was due, or is held. -/
structure Accounted (machine : Machine)
    (timers : List (List ExpireItem × List ExpireItem)) : Prop where
  inOrder : InOrder machine.globals.store.expire
  returning : Returning machine.clock machine.globals.store.expire
  due : ∀ item ∈ processedIn timers, item.expireTime ≤ machine.clock
  timers : (acceptedIn timers : Multiset ExpireItem) =
    (processedIn timers : Multiset ExpireItem) +
      held machine.globals.store.expire

theorem acceptedIn_snoc (timers : List (List ExpireItem × List ExpireItem))
    (last : List ExpireItem × List ExpireItem) :
    acceptedIn (timers ++ [last]) = acceptedIn timers ++ last.1 := by
  simp [acceptedIn]

theorem processedIn_snoc (timers : List (List ExpireItem × List ExpireItem))
    (last : List ExpireItem × List ExpireItem) :
    processedIn (timers ++ [last]) = processedIn timers ++ last.2 := by
  simp [processedIn]

theorem accounted_fresh (clock : Int) (worlds : Nat → World) :
    Accounted (freshMachine clock worlds) [] := by
  refine ⟨inOrder_init, returning_init clock,
    fun _ member => absurd member List.not_mem_nil, ?_⟩
  have empty : held (freshMachine clock worlds).globals.store.expire = 0 :=
    held_init
  rw [empty]
  rfl

/-- A handler brings in what it appends to the command queue. -/
theorem Effect.held {proc : Proc} {call : Call} {before after : Store}
    (effect : Effect proc call before after)
    (inOrder : InOrder before.expire) :
    InOrder after.expire ∧
      TimerRuns.held after.expire =
        TimerRuns.held before.expire +
          (acceptedBetween before.expire after.expire :
            Multiset ExpireItem) := by
  rcases effect.expire_cases with same | ⟨type, key, time, handed, -⟩
  · rw [same, acceptedBetween, List.drop_length]
    exact ⟨inOrder, (add_zero _).symm⟩
  · obtain ⟨ordered, accepted, contents, gained⟩ :=
      pushCmd_held inOrder call.world.stack type key time
    rw [handed, acceptedBetween, contents, List.drop_left]
    exact ⟨ordered, gained⟩

/-- One event. -/
theorem Accounted.step {machine : Machine}
    {timers : List (List ExpireItem × List ExpireItem)}
    (accounted : Accounted machine timers) {event : Event}
    (forward : Forward machine event) :
    Accounted (timedStep flags machine event).1
      (timers ++ [(timedStep flags machine event).2]) := by
  obtain ⟨inOrder, returning, due, total⟩ := accounted
  cases event with
  | command mem req command =>
      have effect := Proc.run_effect command.proc
        (nextCall flags machine.globals mem req) (tick machine.globals)
      obtain ⟨ordered, gained⟩ := Effect.held effect inOrder
      refine ⟨ordered, Effect.returning effect returning, ?_, ?_⟩
      · rw [processedIn_snoc]
        exact fun item member => due item (by simpa [timedStep, timersOf]
          using member)
      · rw [acceptedIn_snoc, processedIn_snoc, ← Multiset.coe_add,
          ← Multiset.coe_add, total]
        change _ + (acceptedBetween _ _ : Multiset ExpireItem) = _ + 0 + _
        rw [add_zero, add_assoc]
        exact congrArg _ gained.symm
  | thread now =>
      obtain ⟨ordered, kept⟩ := threadStep_held inOrder now
      refine ⟨ordered, returning.threadStep forward, ?_, ?_⟩
      · rw [processedIn_snoc]
        intro item member
        have old := due item (by simpa [timedStep, timersOf] using member)
        exact old.trans forward
      · rw [acceptedIn_snoc, processedIn_snoc, ← Multiset.coe_add,
          ← Multiset.coe_add, total]
        change _ + 0 = _ + 0 + held (expireThreadStep now _)
        rw [kept, add_zero, add_zero]
  | process now left =>
      obtain ⟨ordered, taken⟩ :=
        @expireProcessLoop_held flags left _ inOrder
      obtain ⟨later, early⟩ := @expireProcessLoop_returning flags left _ _
        (returning.mono forward)
      refine ⟨ordered, later, ?_, ?_⟩
      · rw [processedIn_snoc]
        intro item member
        rcases List.mem_append.mp member with old | new
        · exact (due item old).trans forward
        · exact early item new
      · rw [acceptedIn_snoc, processedIn_snoc, ← Multiset.coe_add,
          ← Multiset.coe_add, total, taken, ← add_assoc]
        exact add_zero _

/-- A run accounts for all its timers. -/
theorem Accounted.run {machine : Machine}
    {timers : List (List ExpireItem × List ExpireItem)}
    (accounted : Accounted machine timers) {events : List Event}
    (forward : Along (timedStep flags) Forward machine events) :
    Accounted (run (timedStep flags) machine events).1
      (timers ++ (run (timedStep flags) machine events).2) := by
  induction events generalizing machine timers with
  | nil =>
      rw [Simulation.run, List.append_nil]
      exact accounted
  | cons event rest induction =>
      have last := induction (accounted.step forward.1) forward.2
      rw [List.append_assoc] at last
      exact last

end Events

/-! ## Nothing stays -/

/-- The thread has work: a timer that is not in the delete queue yet. -/
def Busy (expire : ExpireSystem) : Prop :=
  queued expire.cmdQueue + carried expire.phase + heapItems expire.heap ≠ 0

/--
The thread takes a step, with the clock past some time, while it has work and
does not wait for room in the delete queue; or the loop of
`expire_process_deletes` runs over a delete queue that is not empty.
-/
inductive Moves (flags : Flags) (latest : Int) :
    Globals Store × List ExpireItem → Globals Store × List ExpireItem →
      Prop where
  | thread {globals : Globals Store} {processed : List ExpireItem} {now : Int}
      (late : latest ≤ now) (busy : Busy globals.store.expire)
      (steps : expireThreadStep now globals.store.expire ≠
        globals.store.expire) :
      Moves flags latest (globals, processed)
        ({ globals with
            store :=
              { globals.store with
                expire := expireThreadStep now globals.store.expire } },
          processed)
  | process {globals : Globals Store} {processed : List ExpireItem}
      {left : Nat} (some : 0 < left)
      (waiting : queuePop globals.store.expire.deleteQueue ≠ none) :
      Moves flags latest (globals, processed)
        (expireProcessLoop flags left globals,
          processed ++ takenIn flags left globals)

/-- A full queue is not empty. -/
theorem queuePop_of_full {q : ExpireQueue} {item : ExpireItem}
    (full : queuePush q item = none) : queuePop q ≠ none := by
  rw [queuePush] at full
  rw [queuePop]
  split_ifs at full with last
  split_ifs with empty
  · rw [expireQueueSize] at last
    omega
  · exact Option.some_ne_none _

/-- A step of the thread that changes nothing waits for room. -/
theorem waiting_of_same {now : Int} {expire : ExpireSystem}
    (same : expireThreadStep now expire = expire) :
    queuePop expire.deleteQueue ≠ none := by
  have move := expireThreadStep_move now expire
  have phase := congrArg ExpireSystem.phase same
  generalize expireThreadStep now expire = next at move phase
  cases move with
  | take stands popped =>
      rw [stands] at phase
      cases phase
  | look stands empty =>
      rw [stands] at phase
      cases phase
  | insert stands =>
      rw [stands] at phase
      cases phase
  | ripen stands ripe popped =>
      rw [stands] at phase
      cases phase
  | again stands idle =>
      rw [stands] at phase
      cases phase
  | deliver stands pushed =>
      rw [stands] at phase
      cases phase
  | wait stands full => exact queuePop_of_full full

/-- How far the thread is from its next useful step. -/
def phaseRank (latest : Int) (expire : ExpireSystem) : Nat :=
  match expire.phase with
  | .collect => 1
  | .insert _ => 0
  | .fire reading => if latest ≤ reading ∧ 0 < expire.heap.size then 0 else 2
  | .deliver _ _ => 0

/-- What the thread has in hand weighs more before the heap than behind it. -/
def carriedRank : ThreadPhase → Nat
  | .collect => 0
  | .insert _ => 12
  | .fire _ => 0
  | .deliver _ _ => 6

/-- The work that is left: every place that a timer has to pass weighs more
than the next one. -/
def workLeft (latest : Int) (expire : ExpireSystem) : Nat :=
  15 * (ExpireQueue.contents expire.cmdQueue).length +
    carriedRank expire.phase + 9 * expire.heap.size +
      3 * (ExpireQueue.contents expire.deleteQueue).length +
        phaseRank latest expire

section Work

variable {latest now : Int} {expire : ExpireSystem}
  (inOrder : InOrder expire)
  (passed : ∀ item ∈ held expire, item.expireTime ≤ latest)

include inOrder passed

/-- A step of the thread that has work and does not wait lowers the work that
is left. -/
theorem threadStep_workLeft (late : latest ≤ now) (busy : Busy expire)
    (steps : expireThreadStep now expire ≠ expire) :
    workLeft latest (expireThreadStep now expire) <
      workLeft latest expire := by
  obtain ⟨cmd, delete, heap⟩ := inOrder
  have move := expireThreadStep_move now expire
  generalize expireThreadStep now expire = next at move steps ⊢
  cases move with
  | take stands popped =>
      have longer := congrArg List.length (queuePop_contents cmd popped).2
      rw [List.length_cons] at longer
      simp only [workLeft, phaseRank, carriedRank, stands]
      omega
  | look stands empty =>
      have contents := queuePop_none empty
      rw [Busy, queued, contents, stands] at busy
      have some : 0 < expire.heap.size := by
        refine heap_size_pos (fun none => busy ?_)
        simp only [none, carried, Multiset.coe_nil, add_zero]
      simp only [workLeft, phaseRank, carriedRank, stands, contents]
      rw [if_pos ⟨late, some⟩]
      omega
  | insert stands =>
      simp only [workLeft, phaseRank, carriedRank, stands, heapPush]
      omega
  | @ripen reading item rest stands ripe popped =>
      have smaller : expire.heap.size = rest.size + 1 := by
        rw [heapPop] at popped
        split_ifs at popped with empty
        cases popped
        simp only
        omega
      simp only [workLeft, phaseRank, carriedRank, stands, smaller]
      omega
  | @again reading stands idle =>
      have stale : ¬ (latest ≤ reading ∧ 0 < expire.heap.size) := by
        rintro ⟨fresh, some⟩
        have top : expire.heap.data 0 ∈ held expire := by
          refine Multiset.mem_add.mpr (Or.inl (Multiset.mem_add.mpr
            (Or.inr (BinaryHeap.mem_held.mpr ⟨0, some, rfl⟩))))
        exact idle ⟨some, (passed _ top).trans fresh⟩
      simp only [workLeft, phaseRank, carriedRank, stands]
      rw [if_neg stale]
      omega
  | @deliver reading item queue stands pushed =>
      have contents := (queuePush_contents delete pushed).2
      simp only [workLeft, phaseRank, carriedRank, stands, contents,
        List.length_append, List.length_singleton]
      split_ifs <;> omega
  | wait stands full => exact absurd rfl steps

end Work

/-- The loop lowers the work that is left. -/
theorem expireProcessLoop_workLeft {flags : Flags} {latest : Int} {left : Nat}
    (some : 0 < left) {globals : Globals Store}
    (inOrder : InOrder globals.store.expire)
    (waiting : queuePop globals.store.expire.deleteQueue ≠ none) :
    workLeft latest (expireProcessLoop flags left globals).store.expire <
      workLeft latest globals.store.expire := by
  obtain ⟨queue, final, -, contents⟩ :=
    @expireProcessLoop_queue flags left globals inOrder.delete
  have taken := List.length_pos_of_ne_nil
    (@takenIn_ne_nil flags left some globals waiting)
  rw [final]
  simp only [workLeft, phaseRank, contents, List.length_append]
  omega

/-- Where the timers of a total are while all times have passed. -/
structure Finishing (latest : Int) (total : Multiset ExpireItem)
    (state : Globals Store × List ExpireItem) : Prop where
  inOrder : InOrder state.1.store.expire
  passed : ∀ item ∈ held state.1.store.expire, item.expireTime ≤ latest
  total : total =
    (state.2 : Multiset ExpireItem) + held state.1.store.expire

section Finishing

variable {flags : Flags} {latest : Int} {total : Multiset ExpireItem}
  {state next : Globals Store × List ExpireItem}

theorem Finishing.lowers (finishing : Finishing latest total state)
    (moved : Moves flags latest state next) :
    workLeft latest next.1.store.expire <
      workLeft latest state.1.store.expire := by
  cases moved with
  | thread late busy steps =>
      exact threadStep_workLeft finishing.inOrder finishing.passed late busy
        steps
  | process some waiting =>
      exact expireProcessLoop_workLeft some finishing.inOrder waiting

theorem Finishing.step (finishing : Finishing latest total state)
    (moved : Moves flags latest state next) :
    Finishing latest total next := by
  obtain ⟨inOrder, passed, total⟩ := finishing
  cases moved with
  | @thread globals processed now late busy steps =>
      obtain ⟨ordered, kept⟩ := threadStep_held inOrder now
      exact ⟨ordered, fun item member => passed item (kept ▸ member),
        total.trans (congrArg _ kept.symm)⟩
  | @process globals processed left some waiting =>
      obtain ⟨ordered, taken⟩ := @expireProcessLoop_held flags left _ inOrder
      refine ⟨ordered, fun item member => passed item ?_, ?_⟩
      · rw [taken]
        exact Multiset.mem_add.mpr (Or.inr member)
      · rw [total, taken, ← Multiset.coe_add, add_assoc]

/-- When neither the thread nor the loop finds work, nothing is held. -/
theorem Finishing.ends (finishing : Finishing latest total state)
    (stuck : ∀ next, ¬ Moves flags latest state next) :
    (state.2 : Multiset ExpireItem) = total := by
  obtain ⟨globals, processed⟩ := state
  have popped : queuePop globals.store.expire.deleteQueue = none := by
    by_contra waiting
    exact stuck _ (.process Nat.one_pos waiting)
  have idle : ¬ Busy globals.store.expire := by
    intro busy
    refine @waiting_of_same latest _ ?_ popped
    by_contra steps
    exact stuck _ (.thread le_rfl busy steps)
  rw [finishing.total, held, not_not.mp idle, queued, queuePop_none popped]
  simp

end Finishing

/--
Timers are delivered exactly once, and none is delivered early.  In every run of
commands, steps of the expire thread and pieces of `expire_process_deletes`, in
any order and on a clock that does not run backwards, the timers that the
command queue has accepted are those that were processed together with those
that the system still holds, and what was processed had come due.  From then on,
once all times have passed, every run in which the thread and the loop go on
while they find work ends, and then what was processed is what was accepted.
-/
theorem timers_delivered {flags : Flags} {clock : Int} {worlds : Nat → World}
    {events : List Event}
    (forward : Along (timedStep flags) Forward (freshMachine clock worlds)
      events) :
    let last := run (timedStep flags) (freshMachine clock worlds) events
    (acceptedIn last.2 : Multiset ExpireItem) =
        (processedIn last.2 : Multiset ExpireItem) +
          held last.1.globals.store.expire ∧
      (∀ item ∈ processedIn last.2, item.expireTime ≤ last.1.clock) ∧
      ∀ latest, (∀ item ∈ held last.1.globals.store.expire,
          item.expireTime ≤ latest) →
        Inevitably (Moves flags latest)
          (fun state => (state.2 : Multiset ExpireItem) =
            (acceptedIn last.2 : Multiset ExpireItem))
          (last.1.globals, processedIn last.2) := by
  have accounted := (accounted_fresh clock worlds).run forward
  rw [List.nil_append] at accounted
  refine ⟨accounted.timers, accounted.due, fun latest passed => ?_⟩
  have start : Finishing latest
      (acceptedIn (run (timedStep flags) (freshMachine clock worlds)
        events).2)
      ((run (timedStep flags) (freshMachine clock worlds) events).1.globals,
        processedIn (run (timedStep flags) (freshMachine clock worlds)
          events).2) :=
    ⟨accounted.inOrder, passed, accounted.timers⟩
  exact inevitably_of_kept_rank
    (fun state => workLeft latest state.1.store.expire)
    (fun state next finishing moved => finishing.lowers moved)
    (fun state next finishing moved => finishing.step moved)
    (fun state finishing stuck => finishing.ends stuck) start

/-- The timer of `SET k v 2000000000`. -/
def setTimer : ExpireItem :=
  { type := .array
    key := ascii "k"
    hashCache := 0
    expireTime := 2000000000 }

/-- The machine after the `SET`, with its timers. -/
def setRun : Machine × List (List ExpireItem × List ExpireItem) :=
  run (timedStep expiryFlags) (freshMachine 1000 (fun _ => default))
    [setEvent timedSet]

/-- The timer of one `SET` is delivered. -/
theorem timers_delivered_set :
    ∃ last, Relation.ReflTransGen (Moves expiryFlags 2000000000)
        (setRun.1.globals, []) last ∧ last.2 = [setTimer] := by
  have accepted : acceptedIn setRun.2 = [setTimer] := by decide +kernel
  obtain ⟨total, -, delivers⟩ := @timers_delivered expiryFlags 1000
    (fun _ => default) [setEvent timedSet] ⟨trivial, trivial⟩
  change (acceptedIn setRun.2 : Multiset ExpireItem) =
    0 + held setRun.1.globals.store.expire at total
  rw [accepted, zero_add] at total
  obtain ⟨last, moved, ended⟩ := (delivers 2000000000 (by
    intro item member
    change item ∈ held setRun.1.globals.store.expire at member
    rw [← total] at member
    rw [List.mem_singleton.mp member]
    decide)).reached
  change _ = (acceptedIn setRun.2 : Multiset ExpireItem) at ended
  rw [accepted] at ended
  exact ⟨last, moved, Multiset.coe_eq_singleton.mp ended⟩

end Kivo.Server.TimerRuns
