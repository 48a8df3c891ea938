import Mathlib.Data.Nat.Digits.Lemmas
import Kivo.Clib.Memory

/-!
# Decimal numerals as the C library reads and prints them

`strtoll` skips leading white space, takes one optional sign and reads the
longest run of digits behind it, saturating at the ends of the 64-bit range;
a text without digits is zero.  `atoll` is that value and `atoi` its
truncation to 32 bits.  None of them knows where the text was meant to end:
they read on until a byte stops them.

`decimal` prints a natural number as `printf("%d")` does.  The round-trip
theorems say that a printed number is read back whatever follows it, as long
as the next byte is not a digit.
-/

namespace Kivo.Clib.Numeral

open Kivo.Clib.Memory

/-- The bytes `isspace` accepts in the C locale. -/
def isSpace (byte : UInt8) : Bool :=
  byte == 32 || (9 ≤ byte && byte ≤ 13)

/-- The bytes `isdigit` accepts. -/
def isDigit (byte : UInt8) : Bool :=
  48 ≤ byte && byte ≤ 57

/-- Positional value of a run of digits, most significant digit first. -/
def digitsValue (digits : Bytes) : Nat :=
  digits.foldl (fun value digit => value * 10 + (digit.toNat - 48)) 0

/-- Sign and remaining text behind the leading white space. -/
def splitSign : Bytes → Bool × Bytes
  | 45 :: rest => (true, rest)
  | 43 :: rest => (false, rest)
  | text => (false, text)

/-- `strtoll(text, NULL, 10)`. -/
def strtoll (text : Bytes) : Int :=
  let signed := splitSign (text.dropWhile isSpace)
  let value : Int := digitsValue (signed.2.takeWhile isDigit)
  if signed.1 then max (-value) (-2 ^ 63) else min value (2 ^ 63 - 1)

/-- `atoll`; on this platform also `atol`. -/
def atoll (text : Bytes) : Int :=
  strtoll text

/-- `atoi`: the `long` that `strtol` returns, converted to `int`. -/
def atoi (text : Bytes) : Int :=
  toInt32 (strtoll text)

/-- The digits `printf` writes for a natural number. -/
def decimal (number : Nat) : Bytes :=
  if number = 0 then [48]
  else (Nat.digits 10 number).reverse.map
    (fun digit => UInt8.ofNat (48 + digit))

/-! ## The digits of a printed number -/

theorem isDigit_ofNat {digit : Nat} (small : digit < 10) :
    isDigit (UInt8.ofNat (48 + digit)) = true := by
  interval_cases digit <;> rfl

theorem isDigit_of_mem_decimal {number : Nat} {byte : UInt8}
    (member : byte ∈ decimal number) :
    isDigit byte = true := by
  rw [decimal] at member
  split_ifs at member with zero
  · rw [List.mem_singleton] at member
    subst member
    rfl
  · obtain ⟨digit, digitMember, rfl⟩ := List.mem_map.mp member
    have small : digit < 10 :=
      Nat.digits_lt_base (by decide) (List.mem_reverse.mp digitMember)
    exact isDigit_ofNat small

theorem decimal_ne_nil (number : Nat) : decimal number ≠ [] := by
  rw [decimal]
  split_ifs with zero
  · simp
  · simpa [Nat.digits_eq_nil_iff_eq_zero] using zero

theorem decimal_length_pos (number : Nat) :
    0 < (decimal number).length :=
  List.length_pos_of_ne_nil (decimal_ne_nil number)

/-- No digit is white space or a sign. -/
theorem isDigit_separated {byte : UInt8} (digit : isDigit byte = true) :
    isSpace byte = false ∧ byte ≠ 45 ∧ byte ≠ 43 := by
  simp only [isDigit, Bool.and_eq_true, decide_eq_true_eq,
    UInt8.le_iff_toNat_le] at digit
  refine ⟨?_, ?_, ?_⟩
  · simp only [isSpace, Bool.or_eq_false_iff, beq_eq_false_iff_ne, ne_eq,
      Bool.and_eq_false_iff, decide_eq_false_iff_not,
      UInt8.le_iff_toNat_le, ← UInt8.toNat_inj]
    have lower : (48 : UInt8).toNat = 48 := rfl
    have upper : (13 : UInt8).toNat = 13 := rfl
    have space : (32 : UInt8).toNat = 32 := rfl
    omega
  · rintro rfl
    exact absurd digit.1 (by decide)
  · rintro rfl
    exact absurd digit.1 (by decide)

theorem digitsValue_decimal (number : Nat) :
    digitsValue (decimal number) = number := by
  rw [decimal]
  split_ifs with zero
  · subst zero
    rfl
  · have folded : ∀ digits : List Nat, (∀ digit ∈ digits, digit < 10) →
        digitsValue (digits.reverse.map
          (fun digit => UInt8.ofNat (48 + digit))) =
          Nat.ofDigits 10 digits := by
      intro digits small
      induction digits with
      | nil => rfl
      | cons digit rest induction =>
          have smallDigit : digit < 10 := small digit (by simp)
          have smallRest := induction
            (fun other member => small other (by simp [member]))
          have back : (UInt8.ofNat (48 + digit)).toNat = 48 + digit := by
            rw [UInt8.toNat_ofNat']
            omega
          simp only [digitsValue, List.reverse_cons, List.map_append,
            List.map_cons, List.map_nil, List.foldl_append, List.foldl_cons,
            List.foldl_nil, Nat.ofDigits_cons, back] at smallRest ⊢
          omega
    rw [folded _ (fun digit member =>
      Nat.digits_lt_base (by decide) member), Nat.ofDigits_digits]

/-! ## Reading a printed number back -/

/-- A text that does not start with a digit. -/
def DigitFree : Bytes → Prop
  | [] => True
  | byte :: _ => isDigit byte = false

theorem takeWhile_isDigit_of_digitFree {rest : Bytes}
    (free : DigitFree rest) :
    rest.takeWhile isDigit = [] := by
  cases rest with
  | nil => rfl
  | cons byte rest =>
      have stopped : isDigit byte = false := free
      simp [stopped]

theorem strtoll_decimal (number : Nat) {rest : Bytes}
    (free : DigitFree rest) :
    strtoll (decimal number ++ rest) = min (number : Int) (2 ^ 63 - 1) := by
  have digits : ∀ byte ∈ decimal number, isDigit byte = true :=
    fun byte member => isDigit_of_mem_decimal member
  have value : ((decimal number ++ rest).takeWhile isDigit) =
      decimal number := by
    rw [List.takeWhile_append_of_pos digits,
      takeWhile_isDigit_of_digitFree free, List.append_nil]
  obtain ⟨first, others, shape⟩ :=
    List.exists_cons_of_ne_nil (decimal_ne_nil number)
  have firstDigit : isDigit first = true :=
    digits first (by rw [shape]; simp)
  obtain ⟨noSpace, noMinus, noPlus⟩ := isDigit_separated firstDigit
  have unskipped : (decimal number ++ rest).dropWhile isSpace =
      decimal number ++ rest := by
    rw [shape, List.cons_append, List.dropWhile_cons, noSpace]
    rfl
  have unsigned : splitSign (decimal number ++ rest) =
      (false, decimal number ++ rest) := by
    rw [shape, List.cons_append]
    unfold splitSign
    split
    · rename_i equality
      exact absurd (List.cons.inj equality).1 noMinus
    · rename_i equality
      exact absurd (List.cons.inj equality).1 noPlus
    · rfl
  simp only [strtoll, unskipped, unsigned, value, digitsValue_decimal,
    Bool.false_eq_true, if_false]

theorem atoi_decimal {number : Nat} (small : number < 2 ^ 31)
    {rest : Bytes} (free : DigitFree rest) :
    atoi (decimal number ++ rest) = number := by
  rw [atoi, strtoll_decimal number free]
  have unsaturated : min (number : Int) (2 ^ 63 - 1) = number := by omega
  rw [unsaturated, toInt32_of_range (by omega) (by omega)]

/-- What `printf("%d")` writes for a number of either sign. -/
def decimalInt (number : Int) : Bytes :=
  if number < 0 then 45 :: decimal number.natAbs else decimal number.natAbs

theorem atoi_decimalInt {number : Int} (least : -2 ^ 31 ≤ number)
    (most : number < 2 ^ 31) : atoi (decimalInt number) = number := by
  rw [decimalInt]
  split_ifs with negative
  · have digits : (decimal number.natAbs).takeWhile isDigit =
        decimal number.natAbs :=
      List.takeWhile_eq_self_iff.mpr
        (fun byte member => isDigit_of_mem_decimal member)
    have opened : strtoll (45 :: decimal number.natAbs) =
        max (-(number.natAbs : Int)) (-2 ^ 63) := by
      have begun : (45 :: decimal number.natAbs).dropWhile isSpace =
          45 :: decimal number.natAbs :=
        List.dropWhile_cons_of_neg (by decide)
      have signed : splitSign (45 :: decimal number.natAbs) =
          (true, decimal number.natAbs) := rfl
      rw [strtoll, begun, signed]
      dsimp only
      rw [digits, digitsValue_decimal, if_pos rfl]
    rw [atoi, opened, show max (-(number.natAbs : Int)) (-2 ^ 63) = number by
      omega, toInt32_of_range least most]
  · have small : number.natAbs < 2 ^ 31 := by omega
    have read := @atoi_decimal number.natAbs small [] trivial
    rw [List.append_nil] at read
    rw [read]
    omega

/-! ## Numbers in front of other text -/

/-- A text of white space. -/
def Blank (text : Bytes) : Prop :=
  ∀ byte ∈ text, isSpace byte = true

instance (text : Bytes) : Decidable (Blank text) :=
  List.decidableBAll (fun byte => isSpace byte = true) text

theorem dropWhile_isSpace_of_blank {text : Bytes} (blank : Blank text)
    (rest : Bytes) :
    (text ++ rest).dropWhile isSpace = rest.dropWhile isSpace :=
  List.dropWhile_append_of_pos blank

theorem strtoll_of_blank {text : Bytes} (blank : Blank text) :
    strtoll text = 0 := by
  have skipped : text.dropWhile isSpace = [] :=
    List.dropWhile_eq_nil_iff.mpr blank
  rw [strtoll, skipped]
  decide

theorem splitSign_append {front : Bytes} (nonempty : front ≠ [])
    (rest : Bytes) :
    splitSign (front ++ rest) =
      ((splitSign front).1, (splitSign front).2 ++ rest) := by
  obtain ⟨byte, others, rfl⟩ := List.exists_cons_of_ne_nil nonempty
  rw [List.cons_append]
  by_cases minus : byte = 45
  · subst minus
    rfl
  · by_cases plus : byte = 43
    · subst plus
      rfl
    · simp [splitSign, minus, plus]

theorem takeWhile_isDigit_append (digits : Bytes) {rest : Bytes}
    (free : DigitFree rest) :
    (digits ++ rest).takeWhile isDigit = digits.takeWhile isDigit := by
  rw [List.takeWhile_append]
  split_ifs with all
  · rw [takeWhile_isDigit_of_digitFree free, List.append_nil]
    exact ((List.takeWhile_prefix _).eq_of_length all).symm
  · rfl

/-- A number that has begun ends in front of a byte that is no digit. -/
theorem strtoll_append {text rest : Bytes} (begun : ¬ Blank text)
    (free : DigitFree rest) :
    strtoll (text ++ rest) = strtoll text := by
  have visible : text.dropWhile isSpace ≠ [] := by
    rw [Ne, List.dropWhile_eq_nil_iff]
    exact begun
  have skipped : (text ++ rest).dropWhile isSpace =
      text.dropWhile isSpace ++ rest := by
    rw [List.dropWhile_append, if_neg]
    rwa [List.isEmpty_iff]
  simp only [strtoll, skipped, splitSign_append visible,
    takeWhile_isDigit_append _ free]

/-- The text behind a byte that starts no number never takes part in a number
in front of it. -/
theorem strtoll_stop (text : Bytes) {stop : UInt8}
    (space : isSpace stop = false) (digit : isDigit stop = false)
    (minus : stop ≠ 45) (plus : stop ≠ 43) (rest : Bytes) :
    strtoll (text ++ stop :: rest) = strtoll text := by
  by_cases blank : Blank text
  · have skipped : (text ++ stop :: rest).dropWhile isSpace =
        stop :: rest := by
      rw [dropWhile_isSpace_of_blank blank, List.dropWhile_cons_of_neg]
      rw [space]
      exact Bool.false_ne_true
    have unsigned : splitSign (stop :: rest) = (false, stop :: rest) := by
      simp [splitSign, minus, plus]
    have digits : (stop :: rest).takeWhile isDigit = [] :=
      takeWhile_isDigit_of_digitFree digit
    rw [strtoll_of_blank blank]
    simp only [strtoll, skipped, unsigned, digits]
    decide
  · exact strtoll_append blank digit

/-- The text behind a star never takes part in a number in front of it. -/
theorem atoi_star (text rest : Bytes) :
    atoi (text ++ 42 :: rest) = atoi (text ++ [42]) := by
  rw [atoi, atoi, strtoll_stop text rfl rfl (by decide) (by decide),
    strtoll_stop text rfl rfl (by decide) (by decide)]

end Kivo.Clib.Numeral
