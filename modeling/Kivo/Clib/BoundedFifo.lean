import Kivo.Clib.Simulation
import Mathlib.Data.List.Infix

/-!
# Bounded queues

A queue of bounded length takes items at one end and gives them back at the
other.  It refuses an item exactly when it is full, and it has none to give
exactly when it is empty.  Along every run, what was given back and what is
left are together what was taken, in order.
-/

namespace Kivo.Clib.BoundedFifo

open Kivo.Clib.Simulation

variable {α : Type}

/-- What can be seen of a queue. -/
inductive FifoEvent (α : Type) where
  | silent
  | pushed (item : α)
  | pushFailed
  | popped (item : α)
  | popFailed
deriving DecidableEq, Repr

/-- The item that an event brings in. -/
def FifoEvent.pushedItem? : FifoEvent α → Option α
  | .pushed item => some item
  | _ => none

/-- The item that an event gives back. -/
def FifoEvent.poppedItem? : FifoEvent α → Option α
  | .popped item => some item
  | _ => none

/-- The event with another view of its item. -/
def FifoEvent.map {β : Type} (view : α → β) : FifoEvent α → FifoEvent β
  | .silent => .silent
  | .pushed item => .pushed (view item)
  | .pushFailed => .pushFailed
  | .popped item => .popped (view item)
  | .popFailed => .popFailed

/-- The items that were taken, oldest first. -/
def pushedItems (events : List (FifoEvent α)) : List α :=
  events.filterMap FifoEvent.pushedItem?

/-- The items that were given back, oldest first. -/
def poppedItems (events : List (FifoEvent α)) : List α :=
  events.filterMap FifoEvent.poppedItem?

/-- One event of a queue that holds at most `capacity` items. -/
inductive FifoStep (capacity : Nat) :
    List α → FifoEvent α → List α → Prop where
  | silent {pending : List α} :
      FifoStep capacity pending .silent pending
  | pushed {pending : List α} {item : α}
      (room : pending.length < capacity) :
      FifoStep capacity pending (.pushed item) (pending ++ [item])
  | pushFailed {pending : List α} (full : pending.length = capacity) :
      FifoStep capacity pending .pushFailed pending
  | popped {pending : List α} {item : α} :
      FifoStep capacity (item :: pending) (.popped item) pending
  | popFailed : FifoStep capacity [] .popFailed []

/-- A run of such a queue. -/
abbrev FifoRun (capacity : Nat) :
    List α → List (FifoEvent α) → List α → Prop :=
  Traced (FifoStep capacity)

section Runs

variable {capacity : Nat} {first last : List α}

/-- One event keeps the items in order. -/
theorem FifoStep.keeps {event : FifoEvent α}
    (step : FifoStep capacity first event last) :
    first ++ event.pushedItem?.toList = event.poppedItem?.toList ++ last := by
  cases step with
  | silent => simp [FifoEvent.pushedItem?, FifoEvent.poppedItem?]
  | pushed room => simp [FifoEvent.pushedItem?, FifoEvent.poppedItem?]
  | pushFailed full => simp [FifoEvent.pushedItem?, FifoEvent.poppedItem?]
  | popped => simp [FifoEvent.pushedItem?, FifoEvent.poppedItem?]
  | popFailed => simp [FifoEvent.pushedItem?, FifoEvent.poppedItem?]

/-- A queue that refuses an item is full. -/
theorem FifoStep.length_of_pushFailed
    (step : FifoStep capacity first .pushFailed last) :
    first.length = capacity := by
  cases step with
  | pushFailed full => exact full

/-- A queue that has no item to give is empty. -/
theorem FifoStep.nil_of_popFailed
    (step : FifoStep capacity first .popFailed last) : first = [] := by
  cases step with
  | popFailed => rfl

/-- What was given back and what is left are what was there and what was
taken. -/
theorem FifoRun.keeps {events : List (FifoEvent α)}
    (run : FifoRun capacity first events last) :
    first ++ pushedItems events = poppedItems events ++ last := by
  induction run with
  | nil => simp [pushedItems, poppedItems]
  | @cons first next last event events step rest induction =>
      have pushed : pushedItems (event :: events) =
          event.pushedItem?.toList ++ pushedItems events := by
        rw [pushedItems, List.filterMap_cons]
        cases event.pushedItem? <;> rfl
      have popped : poppedItems (event :: events) =
          event.poppedItem?.toList ++ poppedItems events := by
        rw [poppedItems, List.filterMap_cons]
        cases event.poppedItem? <;> rfl
      calc
        first ++ pushedItems (event :: events) =
            (first ++ event.pushedItem?.toList) ++ pushedItems events := by
          rw [pushed, List.append_assoc]
        _ = event.poppedItem?.toList ++ (next ++ pushedItems events) := by
          rw [step.keeps, List.append_assoc]
        _ = poppedItems (event :: events) ++ last := by
          rw [induction, popped, List.append_assoc]

/-- A queue that starts empty gives back the items in the order in which it
took them. -/
theorem FifoRun.popped_prefix {events : List (FifoEvent α)}
    (run : FifoRun capacity [] events last) :
    poppedItems events <+: pushedItems events :=
  ⟨last, run.keeps.symm⟩

/-- The items that are pending are those taken and not yet given back. -/
theorem FifoRun.pending_length {events : List (FifoEvent α)}
    (run : FifoRun capacity [] events last) :
    (pushedItems events).length =
      (poppedItems events).length + last.length := by
  have same := congrArg List.length run.keeps
  rwa [List.nil_append, List.length_append] at same

end Runs

end Kivo.Clib.BoundedFifo
