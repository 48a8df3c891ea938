import Kivo.Clib.Memory

/-!
# Fixed-width fields in a byte stream

A program that stores the memory of an integer writes its bytes, the lowest
first on the platforms of interest.  The reader takes the same number of bytes
from the front of what is left of the stream, if there are that many, and goes
on with the rest.
-/

namespace Kivo.Clib.Wire

open Kivo.Clib.Memory

/-! ## Numbers as bytes -/

/-- The bytes of a number in a field of some width, the lowest first. -/
def leBytes : Nat → Nat → Bytes
  | 0, _ => []
  | width + 1, value => UInt8.ofNat value :: leBytes width (value / 256)

/-- The number that some bytes stand for, the lowest first. -/
def leValue : Bytes → Nat
  | [] => 0
  | byte :: rest => byte.toNat + 256 * leValue rest

@[simp]
theorem leBytes_length (width value : Nat) :
    (leBytes width value).length = width := by
  induction width generalizing value with
  | zero => rfl
  | succ width induction => rw [leBytes, List.length_cons, induction]

theorem leValue_leBytes (width value : Nat) :
    leValue (leBytes width value) = value % 256 ^ width := by
  induction width generalizing value with
  | zero => rw [leBytes, leValue, Nat.pow_zero, Nat.mod_one]
  | succ width induction =>
      have split : value % 256 ^ (width + 1) =
          value % 256 + 256 * (value / 256 % 256 ^ width) := by
        rw [Nat.pow_succ', Nat.mod_mul]
      rw [leBytes, leValue, induction, UInt8.toNat_ofNat', split]

theorem leValue_lt (bytes : Bytes) :
    leValue bytes < 256 ^ bytes.length := by
  induction bytes with
  | nil => decide
  | cons byte rest induction =>
      have small := byte.toNat_lt
      rw [leValue, List.length_cons, Nat.pow_succ]
      omega

/-! ## Signed fields -/

/-- The bytes of a signed number in two's complement. -/
def signedBytes (width : Nat) (value : Int) : Bytes :=
  leBytes width (value % 256 ^ width).toNat

@[simp]
theorem signedBytes_length (width : Nat) (value : Int) :
    (signedBytes width value).length = width :=
  leBytes_length width _

/-- The unsigned reading of a signed field is congruent to what was written. -/
theorem leValue_signedBytes (width : Nat) (value : Int) :
    (leValue (signedBytes width value) : Int) = value % 256 ^ width := by
  have positive : (0 : Int) < 256 ^ width := by positivity
  have nonnegative := Int.emod_nonneg value positive.ne'
  have small := Int.emod_lt_of_pos value positive
  rw [signedBytes, leValue_leBytes, Nat.mod_eq_of_lt]
  · exact Int.toNat_of_nonneg nonnegative
  · zify
    rw [Int.toNat_of_nonneg nonnegative]
    exact small

theorem toInt32_signedBytes {value : Int}
    (lower : -2 ^ 31 ≤ value) (upper : value < 2 ^ 31) :
    toInt32 (leValue (signedBytes 4 value)) = value := by
  have width : ((2 ^ 32 : Nat) : Int) = 256 ^ 4 := by norm_num
  rw [leValue_signedBytes, toInt32, ← width, Int.emod_bmod]
  exact toInt32_of_range lower upper

theorem toInt64_signedBytes {value : Int}
    (lower : -2 ^ 63 ≤ value) (upper : value < 2 ^ 63) :
    toInt64 (leValue (signedBytes 8 value)) = value := by
  have width : ((2 ^ 64 : Nat) : Int) = 256 ^ 8 := by norm_num
  rw [leValue_signedBytes, toInt64, ← width, Int.emod_bmod]
  exact toInt64_of_range lower upper

theorem toInt32_leBytes {value : Nat} (upper : value < 2 ^ 31) :
    toInt32 (leValue (leBytes 4 value)) = value := by
  have small : value % 256 ^ 4 = value := by
    apply Nat.mod_eq_of_lt
    norm_num
    omega
  rw [leValue_leBytes, small]
  apply toInt32_of_range
  · omega
  · exact_mod_cast upper

/-! ## Reading a stream -/

/-- Take a number of bytes from the front of a stream that has them. -/
def takeBytes (count : Nat) (stream : Bytes) : Option (Bytes × Bytes) :=
  if count ≤ stream.length then some (stream.take count, stream.drop count)
  else none

theorem takeBytes_append {count : Nat} (field rest : Bytes)
    (width : field.length = count) :
    takeBytes count (field ++ rest) = some (field, rest) := by
  rw [takeBytes, if_pos]
  · rw [List.take_left' width, List.drop_left' width]
  · rw [List.length_append, width]
    exact Nat.le_add_right _ _

theorem takeBytes_eq_some {count : Nat} {stream field rest : Bytes}
    (taken : takeBytes count stream = some (field, rest)) :
    stream = field ++ rest ∧ field.length = count := by
  rw [takeBytes] at taken
  split_ifs at taken with enough
  cases taken
  exact ⟨(List.take_append_drop count stream).symm,
    List.length_take_of_le enough⟩

end Kivo.Clib.Wire
