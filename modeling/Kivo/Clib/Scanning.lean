import Kivo.Clib.Numeral

/-!
# Reading a text piece by piece

`strtok` cuts a string in place: it writes a NUL behind the token that it finds
and goes on from there.  This module follows the addresses that a loop of such
calls collects, and shows that the strings at these addresses, read when the
loop has ended, are the pieces of the original string between the delimiters.

Beside it stand the conversions that read such pieces back: unsigned decimal
numbers, and bytes written as two hexadecimal digits.
-/

namespace Kivo.Clib.Scanning

open Kivo.Clib.Memory
open Kivo.Clib.Numeral

/-! ## Strings in memory -/

theorem cString_cons {byte : UInt8} (nonzero : byte ≠ 0) (rest : Bytes) :
    cString (byte :: rest) = byte :: cString rest := by
  rw [cString, List.takeWhile_cons, if_pos (decide_eq_true nonzero)]
  rfl

theorem cString_append {text : Bytes} (nulFree : (0 : UInt8) ∉ text)
    (rest : Bytes) :
    cString (text ++ rest) = text ++ cString rest := by
  induction text with
  | nil => rfl
  | cons byte text induction =>
      rw [List.cons_append, cString_cons (List.ne_of_not_mem_cons nulFree).symm,
        induction (List.not_mem_of_not_mem_cons nulFree), List.cons_append]

section Tokens

variable (isDelim : UInt8 → Bool)

/-- The pieces of a string between delimiters, without the empty ones. -/
def tokens (text : Bytes) : List Bytes :=
  ((cString text).splitOnP isDelim).filter (fun token => !token.isEmpty)

end Tokens

section Pieces

variable {isDelim : UInt8 → Bool}

variable (nul : isDelim 0 = false)

include nul

end Pieces

/-! ## The loop over `strtok` -/

section Loop

variable {isDelim : UInt8 → Bool}

/-- What the loop over `strtok` leaves of a memory. -/
structure Cut (isDelim : UInt8 → Bool) (limit : Nat) (mem : Bytes)
    (start : Nat) (result : List Nat × Bytes) : Prop where
  length : result.2.length = mem.length
  kept : result.2.take start = mem.take start
  behind : ∀ address ∈ result.1, start ≤ address
  read : result.1.map (fun address => cString (result.2.drop address)) =
    (tokens isDelim (mem.drop start)).take limit

/-- The string at each of the collected addresses. -/
theorem Cut.piece {limit start : Nat} {mem : Bytes}
    {result : List Nat × Bytes} (cut : Cut isDelim limit mem start result)
    {index : Nat} (inside : index < result.1.length) :
    cString (result.2.drop (result.1.getD index 0)) =
      ((tokens isDelim (mem.drop start)).take limit).getD index [] := by
  rw [← cut.read, List.getD_eq_getElem (result.1.map _) _
    (by simpa using inside), List.getElem_map,
    List.getD_eq_getElem _ _ inside]

end Loop

/-! ## Unsigned numbers -/

/-- `strtoull(text, NULL, 10)`; on this platform also `strtoul`. -/
def strtoull (text : Bytes) : Nat :=
  let signed := splitSign (text.dropWhile isSpace)
  let value := digitsValue (signed.2.takeWhile isDigit)
  if 2 ^ 64 ≤ value then 2 ^ 64 - 1
  else if signed.1 then (2 ^ 64 - value) % 2 ^ 64
  else value

theorem splitSign_unsigned {byte : UInt8} (minus : byte ≠ 45)
    (plus : byte ≠ 43) (rest : Bytes) :
    splitSign (byte :: rest) = (false, byte :: rest) := by
  rw [splitSign]
  · exact fun _ same => minus (List.cons.inj same).1
  · exact fun _ same => plus (List.cons.inj same).1

theorem decimal_open {number : Nat} (rest : Bytes) :
    (decimal number ++ rest).dropWhile isSpace = decimal number ++ rest ∧
      splitSign (decimal number ++ rest) =
        (false, decimal number ++ rest) := by
  have digits : ∀ byte ∈ decimal number, isDigit byte = true :=
    fun byte member => isDigit_of_mem_decimal member
  cases shape : decimal number with
  | nil => exact absurd shape (decimal_ne_nil number)
  | cons byte tail =>
      obtain ⟨space, minus, plus⟩ :=
        isDigit_separated (digits byte (by rw [shape]; simp))
      refine ⟨?_, ?_⟩
      · rw [List.cons_append, List.dropWhile_cons, space]
        rfl
      · rw [List.cons_append, splitSign_unsigned minus plus]

/-- A printed number is read back. -/
theorem strtoull_decimal {number : Nat} (small : number < 2 ^ 64)
    {rest : Bytes} (free : DigitFree rest) :
    strtoull (decimal number ++ rest) = number := by
  have digits : ∀ byte ∈ decimal number, isDigit byte = true :=
    fun byte member => isDigit_of_mem_decimal member
  obtain ⟨begins, sign⟩ := @decimal_open number rest
  rw [strtoull, begins, sign, List.takeWhile_append_of_pos digits,
    takeWhile_isDigit_of_digitFree free, List.append_nil,
    digitsValue_decimal]
  exact if_neg (Nat.not_le.mpr small)

/-! ## Bytes in hexadecimal -/

/-- The digit `printf` writes for a value below sixteen. -/
def hexDigit (value : Nat) : UInt8 :=
  if value < 10 then UInt8.ofNat (48 + value) else UInt8.ofNat (87 + value)

/-- What `sprintf(text, "%02x", byte)` writes. -/
def hexByte (byte : UInt8) : Bytes :=
  [hexDigit (byte.toNat / 16), hexDigit (byte.toNat % 16)]

end Kivo.Clib.Scanning
