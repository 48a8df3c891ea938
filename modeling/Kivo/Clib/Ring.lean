import Mathlib.Data.Nat.ModEq
import Mathlib.Tactic

/-!
# Ring buffers

A ring of fixed capacity stores its elements in consecutive slots, counted
from a head index modulo the capacity.  What the ring holds is the list of
these elements in order; the other slots are irrelevant.
-/

namespace Kivo.Clib.Ring

variable {α : Type}

/-- The elements of a ring, oldest first. -/
def ringContents (capacity : Nat) (slots : Nat → α) (head count : Nat) :
    List α :=
  (List.range count).map (fun index => slots ((head + index) % capacity))

/-- Overwrite one slot. -/
def setSlot (slots : Nat → α) (index : Nat) (value : α) : Nat → α :=
  fun other => if other = index then value else slots other

@[simp]
theorem ringContents_zero (capacity : Nat) (slots : Nat → α) (head : Nat) :
    ringContents capacity slots head 0 = [] :=
  rfl

@[simp]
theorem ringContents_length (capacity : Nat) (slots : Nat → α)
    (head count : Nat) :
    (ringContents capacity slots head count).length = count := by
  simp [ringContents]

/-- Different offsets below the capacity lie in different slots. -/
theorem offset_injective {capacity head first second : Nat}
    (firstSmall : first < capacity) (secondSmall : second < capacity)
    (same : (head + first) % capacity = (head + second) % capacity) :
    first = second := by
  have congruent : first ≡ second [MOD capacity] :=
    Nat.ModEq.add_left_cancel' head same
  rw [Nat.ModEq, Nat.mod_eq_of_lt firstSmall,
    Nat.mod_eq_of_lt secondSmall] at congruent
  exact congruent

/-- Writing outside the occupied slots changes nothing. -/
theorem ringContents_setSlot_free {capacity head count offset : Nat}
    (slots : Nat → α) (value : α)
    (free : count ≤ offset) (small : offset < capacity) :
    ringContents capacity
        (setSlot slots ((head + offset) % capacity) value) head count =
      ringContents capacity slots head count := by
  apply List.map_congr_left
  intro index member
  have below := List.mem_range.mp member
  rw [setSlot, if_neg]
  intro same
  have equal := offset_injective (by omega) small same
  omega

/-- The youngest element is the last one. -/
theorem ringContents_concat (capacity : Nat) (slots : Nat → α)
    (head count : Nat) :
    ringContents capacity slots head (count + 1) =
      ringContents capacity slots head count ++
        [slots ((head + count) % capacity)] := by
  rw [ringContents, List.range_succ, List.map_append]
  rfl

/-- Pushing at the tail appends to the contents. -/
theorem ringContents_push {capacity head count : Nat} (slots : Nat → α)
    (value : α) (room : count < capacity) :
    ringContents capacity
        (setSlot slots ((head + count) % capacity) value) head (count + 1) =
      ringContents capacity slots head count ++ [value] := by
  rw [ringContents_concat,
    ringContents_setSlot_free slots value (le_refl count) room, setSlot,
    if_pos rfl]

/-- The oldest element sits at the head; the rest starts behind it. -/
theorem ringContents_succ {capacity head count : Nat} (slots : Nat → α)
    (small : head < capacity) :
    ringContents capacity slots head (count + 1) =
      slots head ::
        ringContents capacity slots ((head + 1) % capacity) count := by
  rw [ringContents, List.range_succ_eq_map, List.map_cons, Nat.add_zero,
    Nat.mod_eq_of_lt small, List.map_map]
  congr 1
  apply List.map_congr_left
  intro index _
  simp only [Function.comp_apply]
  congr 1
  rw [Nat.mod_add_mod]
  congr 1
  omega

/-- Overwriting the oldest element replaces the head of the contents. -/
theorem ringContents_setHead {capacity head count : Nat} (slots : Nat → α)
    (value : α) (small : head < capacity) (fits : count < capacity) :
    ringContents capacity (setSlot slots head value) head (count + 1) =
      value ::
        ringContents capacity slots ((head + 1) % capacity) count := by
  rw [ringContents_succ _ small, setSlot, if_pos rfl]
  congr 1
  apply List.map_congr_left
  intro index member
  have below := List.mem_range.mp member
  rw [setSlot, if_neg]
  intro same
  have shifted : (head + (index + 1)) % capacity = (head + 0) % capacity := by
    have unfolded : ((head + 1) % capacity + index) % capacity =
        (head + (index + 1)) % capacity := by
      rw [Nat.mod_add_mod]
      congr 1
      omega
    rw [← unfolded, same, Nat.add_zero, Nat.mod_eq_of_lt small]
  have equal := offset_injective (by omega) (by omega) shifted
  omega

/-! ## Runs of slots -/

/-- Copy a list into consecutive slots. -/
def setSlots (slots : Nat → α) (start : Nat) (values : List α) : Nat → α :=
  fun other =>
    if start ≤ other then values[other - start]?.getD (slots other)
    else slots other

theorem setSlots_inside (slots : Nat → α) (start : Nat) {values : List α}
    {index : Nat} (inside : index < values.length) :
    setSlots slots start values (start + index) = values[index] := by
  rw [setSlots, if_pos (Nat.le_add_right start index),
    Nat.add_sub_cancel_left, List.getElem?_eq_getElem inside,
    Option.getD_some]

theorem setSlots_outside (slots : Nat → α) {start other : Nat}
    {values : List α}
    (outside : other < start ∨ start + values.length ≤ other) :
    setSlots slots start values other = slots other := by
  rw [setSlots]
  split_ifs with after
  · rw [List.getElem?_eq_none (by omega), Option.getD_none]
  · rfl

/-- Slots that keep the old elements and hold new ones behind them. -/
theorem ringContents_extend {capacity head count : Nat}
    {slots slots' : Nat → α} {values : List α}
    (kept : ∀ index < count, slots' ((head + index) % capacity) =
      slots ((head + index) % capacity))
    (added : ∀ index, ∀ inside : index < values.length,
      slots' ((head + count + index) % capacity) = values[index]) :
    ringContents capacity slots' head (count + values.length) =
      ringContents capacity slots head count ++ values := by
  apply List.ext_getElem
  · simp
  intro index leftBound rightBound
  rw [ringContents_length] at leftBound
  rw [List.getElem_append]
  split_ifs with old
  · rw [ringContents_length] at old
    simpa [ringContents] using kept index old
  · rw [ringContents_length] at old
    have behind := added (index - count) (by omega)
    rw [show head + count + (index - count) = head + index by omega] at behind
    simpa [ringContents] using behind

/-- A slot outside of those that are free is none of those behind the tail. -/
theorem offset_apart {capacity head count index offset : Nat}
    (old : index < count) (fits : count + offset < capacity) :
    (head + index) % capacity ≠ (head + count + offset) % capacity := by
  intro same
  rw [Nat.add_assoc] at same
  have equal := offset_injective (by omega) fits same
  omega

/-- A run that does not reach the end of the buffer. -/
theorem ringContents_setSlots {capacity head count : Nat}
    (slots : Nat → α) {values : List α}
    (room : count + values.length ≤ capacity)
    (straight : (head + count) % capacity + values.length ≤ capacity) :
    ringContents capacity
        (setSlots slots ((head + count) % capacity) values) head
        (count + values.length) =
      ringContents capacity slots head count ++ values := by
  have place : ∀ index < values.length,
      (head + count + index) % capacity =
        (head + count) % capacity + index := by
    intro index inside
    rw [← Nat.mod_add_mod, Nat.mod_eq_of_lt (by omega)]
  apply ringContents_extend
  · intro index old
    apply setSlots_outside
    by_contra within
    obtain ⟨offset, spot⟩ := Nat.exists_eq_add_of_le
      (show (head + count) % capacity ≤ (head + index) % capacity by omega)
    have inside : offset < values.length := by omega
    exact offset_apart old (by omega) (spot.trans (place offset inside).symm)
  · intro index inside
    rw [place index inside]
    exact setSlots_inside slots _ inside

/-- A run that goes on at the start of the buffer. -/
theorem ringContents_setSlots_wrapped {capacity head count : Nat}
    (slots : Nat → α) {values : List α} (positive : 0 < capacity)
    (room : count + values.length ≤ capacity)
    (wraps : capacity < (head + count) % capacity + values.length) :
    ringContents capacity
        (setSlots
          (setSlots slots ((head + count) % capacity)
            (values.take (capacity - (head + count) % capacity))) 0
          (values.drop (capacity - (head + count) % capacity))) head
        (count + values.length) =
      ringContents capacity slots head count ++ values := by
  have tailSmall := Nat.mod_lt (head + count) positive
  generalize tailEq : (head + count) % capacity = tail at *
  have place : ∀ index < values.length,
      (head + count + index) % capacity =
        if index < capacity - tail then tail + index
        else index - (capacity - tail) := by
    intro index inside
    rw [← Nat.mod_add_mod, tailEq]
    split_ifs with front
    · exact Nat.mod_eq_of_lt (by omega)
    · rw [Nat.mod_eq_sub_mod (by omega), Nat.mod_eq_of_lt (by omega)]
      omega
  apply ringContents_extend
  · intro index old
    have small := Nat.mod_lt (head + index) positive
    rw [setSlots_outside, setSlots_outside]
    · by_contra within
      rw [List.length_take] at within
      have apart := @offset_apart capacity head count index
        ((head + index) % capacity - tail) old (by omega)
      rw [place _ (by omega), if_pos (by omega)] at apart
      omega
    · by_contra within
      rw [List.length_drop] at within
      have apart := @offset_apart capacity head count index
        (capacity - tail + (head + index) % capacity) old (by omega)
      rw [place _ (by omega), if_neg (by omega)] at apart
      omega
  · intro index inside
    rw [place index inside]
    split_ifs with front
    · have taken : index < (values.take (capacity - tail)).length := by
        rw [List.length_take]
        omega
      rw [setSlots_outside, setSlots_inside slots tail taken,
        List.getElem_take]
      rw [List.length_drop]
      omega
    · have dropped : index - (capacity - tail) <
          (values.drop (capacity - tail)).length := by
        rw [List.length_drop]
        omega
      have landed := setSlots_inside
        (setSlots slots tail (values.take (capacity - tail))) 0 dropped
      rw [Nat.zero_add] at landed
      rw [landed, List.getElem_drop]
      congr 1
      omega

/-- Dropping the oldest elements moves the head. -/
theorem ringContents_drop {capacity head count dropped : Nat}
    (slots : Nat → α) :
    ringContents capacity slots ((head + dropped) % capacity)
        (count - dropped) =
      (ringContents capacity slots head count).drop dropped := by
  apply List.ext_getElem
  · simp
  intro index leftBound rightBound
  simp only [ringContents, List.getElem_map, List.getElem_range,
    List.getElem_drop, Nat.mod_add_mod]
  rw [Nat.add_assoc]

end Kivo.Clib.Ring
