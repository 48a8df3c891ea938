import Kivo.Clib.BoundedFifo
import Kivo.Server.Timers
import Mathlib.Data.Fintype.Basic

/-!
# The queues between the threads

`queue_push` and `queue_pop` run in two threads without a lock.  Each of them
loads the two indices one after the other, copies the item, and stores its own
index; the other thread can take steps in between.  The item is copied word by
word, in any order: whatever the layout of `expire_item_t`, and with a single
word when the copy is one step.

Seen from outside, the two sequences of steps are a bounded queue.  The same
holds of the calls of `Expire`, which take place at once.
-/

namespace Kivo.Server.QueueSteps

open Kivo.Clib.BoundedFifo
open Kivo.Clib.Ring
open Kivo.Clib.Simulation
open Kivo.Server.Expire
open Kivo.Server.Timers

variable {ι ω : Type}

/-! ## The steps of the two threads -/

/-- `expire_queue_t`, with the words of its items. -/
structure SharedQueue (ι ω : Type) where
  items : Nat → ι → ω
  head : Nat
  tail : Nat

/-- Where `queue_push` stands: it is not called, it has loaded `head`, or it
copies the item and has some words left. -/
inductive PushPhase (ι ω : Type) where
  | idle
  | headLoaded (item : ι → ω) (head : Nat)
  | copying (item : ι → ω) (head : Nat) (left : Finset ι)

/-- Where `queue_pop` stands, with what the variable of its caller holds: it is
not called, it has loaded `tail`, or it copies the item and has some words
left. -/
inductive PopPhase (ι ω : Type) where
  | idle
  | tailLoaded (item : ι → ω) (tail : Nat)
  | copying (item : ι → ω) (tail : Nat) (left : Finset ι)

/-- A step of the thread that calls `queue_push`. -/
inductive PushStep (ι ω : Type) where
  | loadHead (item : ι → ω)
  | loadTail
  | copy (word : ι)
  | storeHead

/-- A step of the thread that calls `queue_pop`. -/
inductive PopStep (ι ω : Type) where
  | loadTail (item : ι → ω)
  | loadHead
  | copy (word : ι)
  | storeTail

section Steps

variable [DecidableEq ι]

/-- Write one word of an item into its slot. -/
def SharedQueue.write (q : SharedQueue ι ω) (slot : Nat) (word : ι)
    (value : ω) : SharedQueue ι ω :=
  { q with
    items := setSlot q.items slot
      (Function.update (q.items slot) word value) }

variable [Fintype ι]

/-- One step of `queue_push`.  A step for which it does not stand ready changes
nothing. -/
def pushStep (q : SharedQueue ι ω) (phase : PushPhase ι ω) :
    PushStep ι ω → SharedQueue ι ω × PushPhase ι ω × FifoEvent (ι → ω)
  | .loadHead item =>
      match phase with
      | .idle => (q, .headLoaded item q.head, .silent)
      | _ => (q, phase, .silent)
  | .loadTail =>
      match phase with
      | .headLoaded item head =>
          if (head + 1) % expireQueueSize = q.tail then
            (q, .idle, .pushFailed)
          else (q, .copying item head Finset.univ, .silent)
      | _ => (q, phase, .silent)
  | .copy word =>
      match phase with
      | .copying item head left =>
          if word ∈ left then
            (q.write head word (item word),
              .copying item head (left.erase word), .silent)
          else (q, phase, .silent)
      | _ => (q, phase, .silent)
  | .storeHead =>
      match phase with
      | .copying item head left =>
          if left = ∅ then
            ({ q with head := (head + 1) % expireQueueSize }, .idle,
              .pushed item)
          else (q, phase, .silent)
      | _ => (q, phase, .silent)

/-- One step of `queue_pop`.  A step for which it does not stand ready changes
nothing. -/
def popStep (q : SharedQueue ι ω) (phase : PopPhase ι ω) :
    PopStep ι ω → SharedQueue ι ω × PopPhase ι ω × FifoEvent (ι → ω)
  | .loadTail item =>
      match phase with
      | .idle => (q, .tailLoaded item q.tail, .silent)
      | _ => (q, phase, .silent)
  | .loadHead =>
      match phase with
      | .tailLoaded item tail =>
          if tail = q.head then (q, .idle, .popFailed)
          else (q, .copying item tail Finset.univ, .silent)
      | _ => (q, phase, .silent)
  | .copy word =>
      match phase with
      | .copying item tail left =>
          if word ∈ left then
            (q, .copying (Function.update item word (q.items tail word)) tail
              (left.erase word), .silent)
          else (q, phase, .silent)
      | _ => (q, phase, .silent)
  | .storeTail =>
      match phase with
      | .copying item tail left =>
          if left = ∅ then
            ({ q with tail := (tail + 1) % expireQueueSize }, .idle,
              .popped item)
          else (q, phase, .silent)
      | _ => (q, phase, .silent)

end Steps

/-- The queue and the two threads. -/
structure Threads (ι ω : Type) where
  queue : SharedQueue ι ω
  push : PushPhase ι ω
  pop : PopPhase ι ω

/-- The threads before their first call, with anything in the slots. -/
def Threads.fresh (items : Nat → ι → ω) : Threads ι ω :=
  { queue := { items := items, head := 0, tail := 0 }
    push := .idle
    pop := .idle }

/-- A step of either thread. -/
inductive ThreadStep (ι ω : Type) where
  | push (step : PushStep ι ω)
  | pop (step : PopStep ι ω)

/-- The step is taken, with what can be seen of it. -/
def threadsStep [DecidableEq ι] [Fintype ι] (threads : Threads ι ω) :
    ThreadStep ι ω → Threads ι ω × FifoEvent (ι → ω)
  | .push step =>
      let result := pushStep threads.queue threads.push step
      ({ threads with queue := result.1, push := result.2.1 }, result.2.2)
  | .pop step =>
      let result := popStep threads.queue threads.pop step
      ({ threads with queue := result.1, pop := result.2.1 }, result.2.2)

/-! ## What the queue holds -/

section Numbers

variable {head tail : Nat} (headSmall : head < expireQueueSize)
  (tailSmall : tail < expireQueueSize)

include headSmall tailSmall

/-- The test of `queue_push`. -/
theorem indices_full :
    (head + 1) % expireQueueSize = tail ↔
      (head + expireQueueSize - tail) % expireQueueSize + 1 =
        expireQueueSize := by
  simp only [expireQueueSize] at headSmall tailSmall ⊢
  omega

/-- The test of `queue_pop`. -/
theorem indices_empty :
    tail = head ↔
      (head + expireQueueSize - tail) % expireQueueSize = 0 := by
  simp only [expireQueueSize] at headSmall tailSmall ⊢
  omega

end Numbers

/-- The number of items in the queue. -/
def SharedQueue.count (q : SharedQueue ι ω) : Nat :=
  (q.head + expireQueueSize - q.tail) % expireQueueSize

/-- The items of the queue, oldest first. -/
def SharedQueue.contents (q : SharedQueue ι ω) : List (ι → ω) :=
  ringContents expireQueueSize q.items q.tail q.count

theorem contents_length (q : SharedQueue ι ω) :
    q.contents.length = q.count :=
  ringContents_length _ _ _ _

theorem count_lt (q : SharedQueue ι ω) : q.count < expireQueueSize :=
  Nat.mod_lt _ (Nat.zero_lt_succ _)

theorem contents_fresh (items : Nat → ι → ω) :
    (Threads.fresh items).queue.contents = [] := by
  apply List.eq_nil_of_length_eq_zero
  rw [contents_length, SharedQueue.count, Threads.fresh, Nat.zero_add,
    Nat.sub_zero, Nat.mod_self]

section Indices

variable {q : SharedQueue ι ω}

/-- The slots of the items are not the one behind them. -/
theorem slot_ne_head {index : Nat} (inside : index < q.count) :
    (q.tail + index) % expireQueueSize ≠ q.head := by
  simp only [SharedQueue.count, expireQueueSize] at inside ⊢
  omega

variable (head : q.head < expireQueueSize) (tail : q.tail < expireQueueSize)

include head

theorem count_storeTail (filled : 0 < q.count) :
    q.count = SharedQueue.count
        { q with tail := (q.tail + 1) % expireQueueSize } + 1 := by
  simp only [SharedQueue.count, expireQueueSize] at head filled ⊢
  omega

include tail

theorem count_slot : (q.tail + q.count) % expireQueueSize = q.head := by
  simp only [SharedQueue.count, expireQueueSize] at head tail ⊢
  omega

theorem full_iff :
    (q.head + 1) % expireQueueSize = q.tail ↔
      q.count + 1 = expireQueueSize :=
  indices_full head tail

theorem empty_iff : q.tail = q.head ↔ q.count = 0 :=
  indices_empty head tail

theorem count_storeHead (room : q.count + 1 < expireQueueSize) :
    SharedQueue.count
        { q with head := (q.head + 1) % expireQueueSize } =
      q.count + 1 := by
  simp only [SharedQueue.count, expireQueueSize] at head tail room ⊢
  omega

/-- Writing behind the last item changes none of the items. -/
theorem contents_write [DecidableEq ι] (word : ι) (value : ω) :
    (q.write q.head word value).contents = q.contents := by
  have free := @ringContents_setSlot_free _ expireQueueSize q.tail q.count
    q.count q.items (Function.update (q.items q.head) word value) (le_refl _)
    (count_lt q)
  rw [count_slot head tail] at free
  exact free

/-- Storing `head` appends what lies in the slot. -/
theorem contents_storeHead (room : q.count + 1 < expireQueueSize) :
    SharedQueue.contents
        { q with head := (q.head + 1) % expireQueueSize } =
      q.contents ++ [q.items q.head] := by
  rw [SharedQueue.contents, count_storeHead head tail room,
    ringContents_concat]
  simp only [SharedQueue.contents, count_slot head tail]

/-- Storing `tail` takes the oldest item away. -/
theorem contents_storeTail (filled : 0 < q.count) :
    q.contents = q.items q.tail :: SharedQueue.contents
      { q with tail := (q.tail + 1) % expireQueueSize } := by
  rw [SharedQueue.contents, count_storeTail head filled,
    ringContents_succ _ tail]
  rfl

end Indices

/-! ## What the threads rely on -/

/-- What `queue_push` relies on: its index is the shared one, there is room for
the item, and the words that were copied are in the slot. -/
def PushOk (q : SharedQueue ι ω) : PushPhase ι ω → Prop
  | .idle => True
  | .headLoaded _ head => head = q.head
  | .copying item head left =>
      head = q.head ∧ q.count + 1 < expireQueueSize ∧
        ∀ word, word ∉ left → q.items head word = item word

/-- What `queue_pop` relies on: its index is the shared one, there is an item,
and the words that were copied are those of the slot. -/
def PopOk (q : SharedQueue ι ω) : PopPhase ι ω → Prop
  | .idle => True
  | .tailLoaded _ tail => tail = q.tail
  | .copying item tail left =>
      tail = q.tail ∧ 0 < q.count ∧
        ∀ word, word ∉ left → item word = q.items tail word

/-- The queue and the two threads agree. -/
structure Coherent (threads : Threads ι ω) : Prop where
  head : threads.queue.head < expireQueueSize
  tail : threads.queue.tail < expireQueueSize
  push : PushOk threads.queue threads.push
  pop : PopOk threads.queue threads.pop

theorem coherent_fresh (items : Nat → ι → ω) :
    Coherent (Threads.fresh items) :=
  ⟨Nat.zero_lt_succ _, Nat.zero_lt_succ _, trivial, trivial⟩

section Reliance

variable {q : SharedQueue ι ω}

/-- The slot that `queue_push` writes is not the one that `queue_pop` reads. -/
theorem PopOk.write [DecidableEq ι] {phase : PopPhase ι ω}
    (popOk : PopOk q phase) (tail : q.tail < expireQueueSize) (word : ι)
    (value : ω) : PopOk (q.write q.head word value) phase := by
  cases phase with
  | idle => trivial
  | tailLoaded item index => exact popOk
  | copying item index left =>
      obtain ⟨rfl, filled, copied⟩ := popOk
      refine ⟨rfl, filled, ?_⟩
      intro other done
      have apart := slot_ne_head filled
      rw [Nat.add_zero, Nat.mod_eq_of_lt tail] at apart
      rw [copied other done, SharedQueue.write]
      simp only [setSlot, if_neg apart]

/-- An item that is added is one more to read. -/
theorem PopOk.storeHead {phase : PopPhase ι ω} (popOk : PopOk q phase)
    (head : q.head < expireQueueSize) (tail : q.tail < expireQueueSize)
    (room : q.count + 1 < expireQueueSize) :
    PopOk { q with head := (q.head + 1) % expireQueueSize } phase := by
  cases phase with
  | idle => trivial
  | tailLoaded item index => exact popOk
  | copying item index left =>
      obtain ⟨same, -, copied⟩ := popOk
      refine ⟨same, ?_, copied⟩
      rw [count_storeHead head tail room]
      exact Nat.succ_pos _

/-- An item that is taken makes room. -/
theorem PushOk.storeTail {phase : PushPhase ι ω} (pushOk : PushOk q phase)
    (head : q.head < expireQueueSize) (filled : 0 < q.count) :
    PushOk { q with tail := (q.tail + 1) % expireQueueSize } phase := by
  cases phase with
  | idle => trivial
  | headLoaded item index => exact pushOk
  | copying item index left =>
      obtain ⟨same, room, copied⟩ := pushOk
      rw [count_storeTail head filled] at room
      exact ⟨same, (Nat.lt_succ_self _).trans room, copied⟩

end Reliance

/-! ## The steps of a bounded queue -/

section Refinement

variable [DecidableEq ι] [Fintype ι] {threads : Threads ι ω}
  (coherent : Coherent threads)

include coherent

/-- A step of `queue_push` is a step of a bounded queue. -/
theorem pushStep_keeps (step : PushStep ι ω) :
    Coherent (threadsStep threads (.push step)).1 ∧
      FifoStep (expireQueueSize - 1) threads.queue.contents
        (threadsStep threads (.push step)).2
        (threadsStep threads (.push step)).1.queue.contents := by
  obtain ⟨q, phase, pop⟩ := threads
  obtain ⟨head, tail, push, popOk⟩ := coherent
  dsimp only at head tail push popOk
  cases step with
  | loadHead item =>
      cases phase with
      | idle => exact ⟨⟨head, tail, rfl, popOk⟩, .silent⟩
      | headLoaded other index => exact ⟨⟨head, tail, push, popOk⟩, .silent⟩
      | copying other index left => exact ⟨⟨head, tail, push, popOk⟩, .silent⟩
  | loadTail =>
      cases phase with
      | idle => exact ⟨⟨head, tail, push, popOk⟩, .silent⟩
      | copying other index left => exact ⟨⟨head, tail, push, popOk⟩, .silent⟩
      | headLoaded item index =>
          obtain rfl : index = q.head := push
          dsimp only [threadsStep, pushStep]
          split_ifs with full
          · refine ⟨⟨head, tail, trivial, popOk⟩, .pushFailed ?_⟩
            have counted := (full_iff head tail).mp full
            rw [contents_length, ← counted, Nat.add_sub_cancel]
          · have room : q.count + 1 < expireQueueSize :=
              lt_of_le_of_ne (count_lt q)
                (fun same => full ((full_iff head tail).mpr same))
            refine ⟨⟨head, tail, ⟨rfl, room, ?_⟩, popOk⟩, .silent⟩
            exact fun word fresh => absurd (Finset.mem_univ word) fresh
  | copy word =>
      cases phase with
      | idle => exact ⟨⟨head, tail, push, popOk⟩, .silent⟩
      | headLoaded other index => exact ⟨⟨head, tail, push, popOk⟩, .silent⟩
      | copying item index left =>
          obtain ⟨rfl, room, copied⟩ := push
          dsimp only [threadsStep, pushStep]
          split_ifs with missing
          · rw [contents_write head tail]
            refine ⟨⟨head, tail, ⟨rfl, room, ?_⟩, popOk.write tail _ _⟩,
              .silent⟩
            intro other done
            simp only [SharedQueue.write, setSlot, if_true]
            by_cases same : other = word
            · rw [same, Function.update_self]
            · rw [Function.update_of_ne same]
              exact copied other
                (fun member => done (Finset.mem_erase.mpr ⟨same, member⟩))
          · exact ⟨⟨head, tail, ⟨rfl, room, copied⟩, popOk⟩, .silent⟩
  | storeHead =>
      cases phase with
      | idle => exact ⟨⟨head, tail, push, popOk⟩, .silent⟩
      | headLoaded other index => exact ⟨⟨head, tail, push, popOk⟩, .silent⟩
      | copying item index left =>
          obtain ⟨rfl, room, copied⟩ := push
          dsimp only [threadsStep, pushStep]
          split_ifs with done
          · have stored : q.items q.head = item := by
              funext word
              exact copied word (done ▸ Finset.notMem_empty word)
            rw [contents_storeHead head tail room, stored]
            refine ⟨⟨Nat.mod_lt _ (Nat.zero_lt_succ _), tail, trivial,
              popOk.storeHead head tail room⟩, .pushed ?_⟩
            rw [contents_length]
            omega
          · exact ⟨⟨head, tail, ⟨rfl, room, copied⟩, popOk⟩, .silent⟩

/-- A step of `queue_pop` is a step of a bounded queue. -/
theorem popStep_keeps (step : PopStep ι ω) :
    Coherent (threadsStep threads (.pop step)).1 ∧
      FifoStep (expireQueueSize - 1) threads.queue.contents
        (threadsStep threads (.pop step)).2
        (threadsStep threads (.pop step)).1.queue.contents := by
  obtain ⟨q, push, phase⟩ := threads
  obtain ⟨head, tail, pushOk, pop⟩ := coherent
  dsimp only at head tail pushOk pop
  cases step with
  | loadTail item =>
      cases phase with
      | idle => exact ⟨⟨head, tail, pushOk, rfl⟩, .silent⟩
      | tailLoaded other index => exact ⟨⟨head, tail, pushOk, pop⟩, .silent⟩
      | copying other index left => exact ⟨⟨head, tail, pushOk, pop⟩, .silent⟩
  | loadHead =>
      cases phase with
      | idle => exact ⟨⟨head, tail, pushOk, pop⟩, .silent⟩
      | copying other index left => exact ⟨⟨head, tail, pushOk, pop⟩, .silent⟩
      | tailLoaded item index =>
          obtain rfl : index = q.tail := pop
          dsimp only [threadsStep, popStep]
          split_ifs with empty
          · refine ⟨⟨head, tail, pushOk, trivial⟩, ?_⟩
            have nothing : q.contents = [] := by
              apply List.eq_nil_of_length_eq_zero
              rw [contents_length]
              exact (empty_iff head tail).mp empty
            rw [nothing]
            exact .popFailed
          · have filled : 0 < q.count :=
              Nat.pos_of_ne_zero
                (fun none => empty ((empty_iff head tail).mpr none))
            refine ⟨⟨head, tail, pushOk, ⟨rfl, filled, ?_⟩⟩, .silent⟩
            exact fun word fresh => absurd (Finset.mem_univ word) fresh
  | copy word =>
      cases phase with
      | idle => exact ⟨⟨head, tail, pushOk, pop⟩, .silent⟩
      | tailLoaded other index => exact ⟨⟨head, tail, pushOk, pop⟩, .silent⟩
      | copying item index left =>
          obtain ⟨rfl, filled, copied⟩ := pop
          dsimp only [threadsStep, popStep]
          split_ifs with missing
          · refine ⟨⟨head, tail, pushOk, ⟨rfl, filled, ?_⟩⟩, .silent⟩
            intro other done
            by_cases same : other = word
            · rw [same, Function.update_self]
            · rw [Function.update_of_ne same]
              exact copied other
                (fun member => done (Finset.mem_erase.mpr ⟨same, member⟩))
          · exact ⟨⟨head, tail, pushOk, ⟨rfl, filled, copied⟩⟩, .silent⟩
  | storeTail =>
      cases phase with
      | idle => exact ⟨⟨head, tail, pushOk, pop⟩, .silent⟩
      | tailLoaded other index => exact ⟨⟨head, tail, pushOk, pop⟩, .silent⟩
      | copying item index left =>
          obtain ⟨rfl, filled, copied⟩ := pop
          dsimp only [threadsStep, popStep]
          split_ifs with done
          · have read : item = q.items q.tail := by
              funext word
              exact copied word (done ▸ Finset.notMem_empty word)
            rw [contents_storeTail head tail filled, read]
            exact ⟨⟨head, Nat.mod_lt _ (Nat.zero_lt_succ _),
              pushOk.storeTail head filled, trivial⟩, .popped⟩
          · exact ⟨⟨head, tail, pushOk, ⟨rfl, filled, copied⟩⟩, .silent⟩

/-- A step of either thread is a step of a bounded queue. -/
theorem threadsStep_keeps (step : ThreadStep ι ω) :
    Coherent (threadsStep threads step).1 ∧
      FifoStep (expireQueueSize - 1) threads.queue.contents
        (threadsStep threads step).2
        (threadsStep threads step).1.queue.contents := by
  cases step with
  | push step => exact pushStep_keeps coherent step
  | pop step => exact popStep_keeps coherent step

end Refinement

/-! ## What holds of every interleaving -/

/-- The step writes a word into the slot. -/
def Writes (threads : Threads ι ω) (step : ThreadStep ι ω) (slot : Nat) :
    Prop :=
  ∃ item left word, threads.push = .copying item slot left ∧ word ∈ left ∧
    step = .push (.copy word)

/-- `queue_pop` may read the slot: it copies from there, or the slot holds an
item of the queue. -/
def MayRead (threads : Threads ι ω) (slot : Nat) : Prop :=
  (∃ item left, threads.pop = .copying item slot left) ∨
    ∃ index < threads.queue.count,
      slot = (threads.queue.tail + index) % expireQueueSize

/--
What two threads can rely on after some events: the items come out in the
order in which they went in, a push fails at a full queue only and a pop at an
empty one, and no slot is written that may be read.
-/
structure Faithful [DecidableEq ι] [Fintype ι] (threads : Threads ι ω)
    (events : List (FifoEvent (ι → ω))) : Prop where
  ordered : poppedItems events <+: pushedItems events
  refused : ∀ step, (threadsStep threads step).2 = .pushFailed →
    (pushedItems events).length =
      (poppedItems events).length + (expireQueueSize - 1)
  starved : ∀ step, (threadsStep threads step).2 = .popFailed →
    (pushedItems events).length = (poppedItems events).length
  apart : ∀ step slot, Writes threads step slot → ¬ MayRead threads slot

/-- The slot that is written is behind the items, and apart from the one that
is read. -/
theorem Coherent.apart {threads : Threads ι ω} (coherent : Coherent threads)
    {step : ThreadStep ι ω} {slot : Nat} (writes : Writes threads step slot) :
    ¬ MayRead threads slot := by
  obtain ⟨item, left, word, copying, -, -⟩ := writes
  have push := coherent.push
  rw [copying] at push
  obtain ⟨rfl, -, -⟩ := push
  rintro (⟨other, rest, reading⟩ | ⟨index, inside, same⟩)
  · have pop := coherent.pop
    rw [reading] at pop
    obtain ⟨same, filled, -⟩ := pop
    have apart := slot_ne_head filled
    rw [Nat.add_zero, Nat.mod_eq_of_lt coherent.tail] at apart
    exact apart same.symm
  · exact slot_ne_head inside same.symm

section Interleavings

variable [DecidableEq ι] [Fintype ι]

/-- The slots change only where a step writes. -/
theorem threadsStep_items (threads : Threads ι ω) (step : ThreadStep ι ω)
    {slot : Nat} (spared : ¬ Writes threads step slot) :
    (threadsStep threads step).1.queue.items slot =
      threads.queue.items slot := by
  obtain ⟨q, push, pop⟩ := threads
  cases step with
  | pop step =>
      cases step <;> cases pop <;> dsimp only [threadsStep, popStep] <;>
        split_ifs <;> rfl
  | push step =>
      cases step with
      | loadHead item => cases push <;> rfl
      | loadTail =>
          cases push <;> dsimp only [threadsStep, pushStep]
          split_ifs <;> rfl
      | storeHead =>
          cases push <;> dsimp only [threadsStep, pushStep]
          split_ifs <;> rfl
      | copy word =>
          cases push with
          | idle => rfl
          | headLoaded item head => rfl
          | copying item head left =>
              dsimp only [threadsStep, pushStep]
              split_ifs with missing
              · have other : slot ≠ head := by
                  rintro rfl
                  exact spared ⟨item, left, word, rfl, missing, rfl⟩
                exact if_neg other
              · rfl

/-- Any interleaving of the two threads is a run of a bounded queue. -/
theorem threads_run (items : Nat → ι → ω) (steps : List (ThreadStep ι ω)) :
    Coherent (run threadsStep (Threads.fresh items) steps).1 ∧
      FifoRun (expireQueueSize - 1) []
        (run threadsStep (Threads.fresh items) steps).2
        (run threadsStep (Threads.fresh items) steps).1.queue.contents := by
  rw [← contents_fresh items]
  exact @run_traced _ _ _ _ threadsStep (FifoStep (expireQueueSize - 1))
    Coherent (fun threads => threads.queue.contents)
    (fun _ step coherent => threadsStep_keeps coherent step)
    (Threads.fresh items) (coherent_fresh items) steps

/--
One thread that calls `queue_push` and one that calls `queue_pop`, interleaved
in any order of their steps: at every moment the items that were popped are the
first of those that were pushed, in order and word for word; a push fails only
if `EXPIRE_QUEUE_SIZE - 1` items are pending when it loads `tail`, a pop only if
none is when it loads `head`; and no slot is written that `queue_pop` may still
read.
-/
theorem queue_interleaved (items : Nat → ι → ω)
    (steps : List (ThreadStep ι ω)) :
    Faithful (run threadsStep (Threads.fresh items) steps).1
      (run threadsStep (Threads.fresh items) steps).2 := by
  obtain ⟨coherent, traced⟩ := threads_run items steps
  have pending := FifoRun.pending_length traced
  refine ⟨FifoRun.popped_prefix traced, ?_, ?_,
    fun step slot writes => coherent.apart writes⟩
  · intro step failed
    obtain ⟨-, next⟩ := threadsStep_keeps coherent step
    rw [failed] at next
    rw [pending, next.length_of_pushFailed]
  · intro step failed
    obtain ⟨-, next⟩ := threadsStep_keeps coherent step
    rw [failed] at next
    rw [pending, next.nil_of_popFailed, List.length_nil, Nat.add_zero]

end Interleavings

/-! ## Calls that take place at once -/

/-- A call of `queue_push` or `queue_pop` during which the other thread takes
no step. -/
inductive CallStep : ExpireQueue → FifoEvent ExpireItem → ExpireQueue →
    Prop where
  | silent {q : ExpireQueue} : CallStep q .silent q
  | pushed {q after : ExpireQueue} {item : ExpireItem}
      (pushed : queuePush q item = some after) :
      CallStep q (.pushed item) after
  | pushFailed {q : ExpireQueue} {item : ExpireItem}
      (refused : queuePush q item = none) :
      CallStep q .pushFailed q
  | popped {q after : ExpireQueue} {item : ExpireItem}
      (popped : queuePop q = some (item, after)) :
      CallStep q (.popped item) after
  | popFailed {q : ExpireQueue} (refused : queuePop q = none) :
      CallStep q .popFailed q

/-- The queue holds what the words mean. -/
structure Views (view : (ι → ω) → ExpireItem) (pending : List (ι → ω))
    (q : ExpireQueue) : Prop where
  ok : QueueOk q
  contents : ExpireQueue.contents q = pending.map view

/-- Every step of a bounded queue is a call that takes place at once. -/
theorem callStep_follows {view : (ι → ω) → ExpireItem}
    {pending next : List (ι → ω)} {q : ExpireQueue}
    {event : FifoEvent (ι → ω)} (views : Views view pending q)
    (step : FifoStep (expireQueueSize - 1) pending event next) :
    ∃ after, CallStep q (event.map view) after ∧ Views view next after := by
  obtain ⟨ok, contents⟩ := views
  have counted : ExpireQueue.count q = pending.length := by
    have same := congrArg List.length contents
    rwa [ExpireQueue.contents, ringContents_length, List.length_map] at same
  have full := indices_full ok.head ok.tail
  have empty := indices_empty ok.head ok.tail
  rw [← ExpireQueue.count, counted] at full empty
  cases step with
  | silent => exact ⟨q, .silent, ok, contents⟩
  | @pushed pending item room =>
      have free : ¬ (q.head + 1) % expireQueueSize = q.tail := by
        rw [full]
        omega
      have pushed : queuePush q (view item) = some _ := if_neg free
      obtain ⟨fine, appended⟩ := queuePush_contents ok pushed
      refine ⟨_, .pushed pushed, fine, ?_⟩
      rw [appended, contents, List.map_append]
      rfl
  | pushFailed stuffed =>
      have filled : (q.head + 1) % expireQueueSize = q.tail := by
        rw [full, stuffed]
        rfl
      exact ⟨q, .pushFailed (if_pos filled : queuePush q ExpireItem.zero = none),
        ok, contents⟩
  | @popped pending item =>
      have filled : ¬ q.tail = q.head := by
        rw [empty]
        exact Nat.succ_ne_zero _
      have popped : queuePop q = some (_, _) := if_neg filled
      obtain ⟨fine, rest⟩ := queuePop_contents ok popped
      rw [contents, List.map_cons] at rest
      obtain ⟨same, others⟩ := List.cons.inj rest
      refine ⟨_, .popped (popped.trans ?_), fine, others.symm⟩
      rw [same]
  | popFailed => exact ⟨q, .popFailed (if_pos (empty.mpr rfl)), ok, contents⟩

/--
The threads can be thought to call the functions of `Expire`: whatever the
words of an item mean, the events of any interleaving are those of a sequence
of calls that take place at once, and the queue holds the same items.
-/
theorem threads_linearized [DecidableEq ι] [Fintype ι]
    (view : (ι → ω) → ExpireItem) (items : Nat → ι → ω)
    (steps : List (ThreadStep ι ω)) :
    ∃ q, Traced CallStep ExpireQueue.zero
        ((run threadsStep (Threads.fresh items) steps).2.map
          (FifoEvent.map view)) q ∧
      ExpireQueue.contents q =
        (run threadsStep (Threads.fresh items)
          steps).1.queue.contents.map view := by
  obtain ⟨-, traced⟩ := threads_run items steps
  obtain ⟨q, called, views⟩ := traced.followed
    (fun views step => callStep_follows views step)
    (⟨queueOk_zero, rfl⟩ : Views view [] ExpireQueue.zero)
  exact ⟨q, called, views.contents⟩

end Kivo.Server.QueueSteps
