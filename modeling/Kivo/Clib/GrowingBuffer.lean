import Mathlib.Algebra.Group.Nat.Defs
import Mathlib.Data.List.Basic

/-!
# Buffers that double their capacity

A buffer is an allocation of some capacity of which a front part is in use.
Room is made by doubling the capacity until it is enough; the new cells hold
whatever the allocator left there.  A write that leaves the allocation has no
result, so that a program whose writes all have results stays inside.
-/

namespace Kivo.Clib.GrowingBuffer

variable {α : Type}

/-! ## Doubling -/

/-- `while (need > cap) cap *= 2`, with a bound on the number of rounds. -/
def doubleUntil (need : Nat) : Nat → Nat → Nat
  | 0, cap => cap
  | rounds + 1, cap =>
      if cap < need then doubleUntil need rounds (cap * 2) else cap

theorem doubleUntil_ge {need rounds cap : Nat}
    (enough : need ≤ cap * 2 ^ rounds) :
    need ≤ doubleUntil need rounds cap := by
  induction rounds generalizing cap with
  | zero => simpa [doubleUntil] using enough
  | succ rounds induction =>
      rw [doubleUntil]
      split_ifs with small
      · apply induction
        rw [Nat.pow_succ'] at enough
        rw [Nat.mul_assoc]
        exact enough
      · omega

/-- As many rounds as the size that is needed are enough. -/
theorem doubleUntil_self {need cap : Nat} (positive : 0 < cap) :
    need ≤ doubleUntil need need cap := by
  apply doubleUntil_ge
  calc
    need ≤ 2 ^ need := Nat.le_of_lt Nat.lt_two_pow_self
    _ ≤ cap * 2 ^ need := Nat.le_mul_of_pos_left _ positive

theorem le_doubleUntil (need rounds cap : Nat) :
    cap ≤ doubleUntil need rounds cap := by
  induction rounds generalizing cap with
  | zero => exact Nat.le_refl _
  | succ rounds induction =>
      rw [doubleUntil]
      split_ifs
      · have later := induction (cap * 2)
        omega
      · exact Nat.le_refl _

/-! ## Cells -/

/-- The allocation after `realloc` to a capacity that is not smaller. -/
def extended (junk : Nat → α) (cap : Nat) (cells : List α) : List α :=
  cells ++ (List.range' cells.length (cap - cells.length)).map junk

theorem extended_length (junk : Nat → α) {cap : Nat} {cells : List α}
    (larger : cells.length ≤ cap) :
    (extended junk cap cells).length = cap := by
  rw [extended, List.length_append, List.length_map, List.length_range']
  omega

/-- What was in use is still there. -/
theorem take_extended (junk : Nat → α) (cap : Nat) {cells : List α}
    {len : Nat} (inside : len ≤ cells.length) :
    (extended junk cap cells).take len = cells.take len :=
  List.take_append_of_le_length inside

/-- A write of several cells, which has no result outside the allocation. -/
def write (cells : List α) (offset : Nat) (values : List α) :
    Option (List α) :=
  if offset + values.length ≤ cells.length then
    some (cells.take offset ++ (values ++ cells.drop (offset + values.length)))
  else none

theorem write_some {cells values : List α} {offset : Nat}
    (inside : offset + values.length ≤ cells.length) :
    ∃ after, write cells offset values = some after ∧
      after.length = cells.length ∧
      after.take (offset + values.length) = cells.take offset ++ values := by
  refine ⟨_, if_pos inside, ?_, ?_⟩
  · simp only [List.length_append, List.length_take, List.length_drop]
    omega
  · have front : (cells.take offset ++ values).length =
        offset + values.length := by
      rw [List.length_append, List.length_take]
      omega
    rw [← List.append_assoc, List.take_append_of_le_length (Nat.le_of_eq front.symm),
      List.take_of_length_le (Nat.le_of_eq front)]

end Kivo.Clib.GrowingBuffer
