import Kivo.Clib.Numeral

/-!
# Numbers padded to a width

`printf("%0*lld")` fills a number up with zeros on the left until it has the
width, and writes a number that is wider as it is.  The padding does not change
what the digits stand for, and numbers that fit have exactly the width, so that
digits of the same weight stand at the same place.
-/

namespace Kivo.Clib.PaddedNumeral

open Kivo.Clib.Memory
open Kivo.Clib.Numeral

/-- A natural number with at least `width` digits. -/
def padded (width number : Nat) : Bytes :=
  List.replicate (width - (decimal number).length) 48 ++ decimal number

/-! ## Widths -/

theorem decimal_length_le_iff {width : Nat} (positive : 0 < width)
    (number : Nat) :
    (decimal number).length ≤ width ↔ number < 10 ^ width := by
  rw [decimal]
  split_ifs with zero
  · subst zero
    exact ⟨fun _ => Nat.pow_pos (by decide), fun _ => positive⟩
  · rw [List.length_map, List.length_reverse]
    exact Nat.digits_length_le_iff (by decide) number

theorem padded_length {width number : Nat} (positive : 0 < width)
    (fits : number < 10 ^ width) :
    (padded width number).length = width := by
  have narrow := (decimal_length_le_iff positive number).mpr fits
  rw [padded, List.length_append, List.length_replicate]
  omega

/-- A wide number is not cut. -/
theorem padded_length_gt {width number : Nat} (positive : 0 < width)
    (wide : 10 ^ width ≤ number) :
    width < (padded width number).length := by
  have long : ¬ (decimal number).length ≤ width :=
    fun short => absurd ((decimal_length_le_iff positive number).mp short)
      (Nat.not_lt.mpr wide)
  rw [padded, List.length_append]
  omega

theorem isDigit_of_mem_padded {width number : Nat} {byte : UInt8}
    (member : byte ∈ padded width number) :
    isDigit byte = true := by
  rcases List.mem_append.mp member with zero | digit
  · rw [List.eq_of_mem_replicate zero]
    rfl
  · exact isDigit_of_mem_decimal digit

/-! ## Values -/

theorem digitsValue_snoc (front : Bytes) (digit : UInt8) :
    digitsValue (front ++ [digit]) =
      digitsValue front * 10 + (digit.toNat - 48) := by
  rw [digitsValue, List.foldl_append, List.foldl_cons, List.foldl_nil,
    digitsValue]

theorem digitsValue_append (front back : Bytes) :
    digitsValue (front ++ back) =
      digitsValue front * 10 ^ back.length + digitsValue back := by
  induction back using List.reverseRecOn with
  | nil => simp [digitsValue]
  | append_singleton rest digit induction =>
      rw [← List.append_assoc, digitsValue_snoc, digitsValue_snoc, induction,
        List.length_append, List.length_singleton, Nat.pow_succ]
      ring

theorem digitsValue_cons (digit : UInt8) (rest : Bytes) :
    digitsValue (digit :: rest) =
      (digit.toNat - 48) * 10 ^ rest.length + digitsValue rest := by
  have split := digitsValue_append [digit] rest
  rw [List.singleton_append] at split
  rw [split, digitsValue, List.foldl_cons, List.foldl_nil, Nat.zero_mul,
    Nat.zero_add]

theorem digitsValue_lt {digits : Bytes}
    (proper : ∀ byte ∈ digits, isDigit byte = true) :
    digitsValue digits < 10 ^ digits.length := by
  induction digits with
  | nil => decide
  | cons digit rest induction =>
      have small := induction
        (fun byte member => proper byte (List.mem_cons_of_mem _ member))
      have high : digit.toNat ≤ 57 := by
        have within := proper digit List.mem_cons_self
        simp only [isDigit, Bool.and_eq_true, decide_eq_true_eq,
          UInt8.le_iff_toNat_le] at within
        exact within.2
      rw [digitsValue_cons, List.length_cons, Nat.pow_succ]
      have weight : (digit.toNat - 48) * 10 ^ rest.length ≤
          9 * 10 ^ rest.length :=
        Nat.mul_le_mul_right _ (by omega)
      omega

theorem digitsValue_replicate (count : Nat) :
    digitsValue (List.replicate count 48) = 0 := by
  induction count with
  | zero => rfl
  | succ count induction =>
      rw [List.replicate_succ, digitsValue_cons, induction]
      exact Nat.zero_mul _

theorem digitsValue_padded (width number : Nat) :
    digitsValue (padded width number) = number := by
  rw [padded, digitsValue_append, digitsValue_replicate, Nat.zero_mul,
    Nat.zero_add, digitsValue_decimal]

end Kivo.Clib.PaddedNumeral
