import Mathlib.Algebra.Group.Nat.Defs
import Mathlib.Data.Int.Basic

/-!
# Serial numbers

A position in a long stream is known by its last 32 bits.  Positions that are
close to each other are told apart by these bits, and compared by the sign of
their difference.
-/

namespace Kivo.Clib.Serial

/-- The first number is ahead of the second: their difference is positive. -/
def serialGt (left right : UInt32) : Bool :=
  decide (0 < (left - right).toInt32)

theorem toNat_ofNat_sub {low high : Nat} (ordered : low ≤ high)
    (near : high < low + 2 ^ 32) :
    (UInt32.ofNat high - UInt32.ofNat low).toNat = high - low := by
  rw [UInt32.toNat_sub, UInt32.toNat_ofNat', UInt32.toNat_ofNat']
  omega

/-- Close positions with the same serial number are the same position. -/
theorem ofNat_inj_near {left right : Nat}
    (leftNear : left < right + 2 ^ 32) (rightNear : right < left + 2 ^ 32) :
    UInt32.ofNat left = UInt32.ofNat right ↔ left = right := by
  constructor
  · intro same
    have values := congrArg UInt32.toNat same
    rw [UInt32.toNat_ofNat', UInt32.toNat_ofNat'] at values
    omega
  · rintro rfl
    rfl

/-- The signed difference of close positions is their distance. -/
theorem toInt_ofNat_sub {left right : Nat}
    (leftNear : left < right + 2 ^ 31) (rightNear : right < left + 2 ^ 31) :
    (UInt32.ofNat left - UInt32.ofNat right).toInt32.toInt =
      (left : Int) - right := by
  have signed : ∀ value : UInt32, value.toInt32.toInt =
      if 2 * value.toNat < 2 ^ 32 then (value.toNat : Int)
      else (value.toNat : Int) - 2 ^ 32 :=
    fun _ => rfl
  rw [signed, UInt32.toNat_sub, UInt32.toNat_ofNat', UInt32.toNat_ofNat']
  split_ifs <;> omega

/-- Close positions are compared correctly. -/
theorem serialGt_ofNat {left right : Nat}
    (leftNear : left < right + 2 ^ 31) (rightNear : right < left + 2 ^ 31) :
    serialGt (UInt32.ofNat left) (UInt32.ofNat right) = true ↔
      right < left := by
  rw [serialGt, decide_eq_true_iff, Int32.lt_iff_toInt_lt,
    toInt_ofNat_sub leftNear rightNear, Int32.toInt_zero]
  omega

end Kivo.Clib.Serial
