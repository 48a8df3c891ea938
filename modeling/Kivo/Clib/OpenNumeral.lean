import Kivo.Clib.Numeral

/-!
# Numbers at the end of a text

`atoi` reads on until a byte stops it.  What comes behind a text belongs to the
number at its end only as far as it consists of white space, signs and digits:
a text that is foreign to numbers changes the value of no number in front of
it.
-/

namespace Kivo.Clib.OpenNumeral

open Kivo.Clib.Memory
open Kivo.Clib.Numeral

/-- The bytes that a number and the white space in front of it consist of. -/
def isNumeral (byte : UInt8) : Bool :=
  isSpace byte || isDigit byte || byte == 45 || byte == 43

theorem isNumeral_false {byte : UInt8} (other : isNumeral byte = false) :
    isSpace byte = false ∧ isDigit byte = false ∧ byte ≠ 45 ∧ byte ≠ 43 := by
  simpa [isNumeral, and_assoc] using other

/-- Behind some white space there is nothing, or a byte of no number. -/
def Foreign (text : Bytes) : Prop :=
  ∀ byte ∈ (text.dropWhile isSpace).head?, isNumeral byte = false

theorem foreign_of_blank {text : Bytes} (blank : Blank text) :
    Foreign text := by
  intro byte member
  rw [List.dropWhile_eq_nil_iff.mpr blank] at member
  cases member

theorem foreign_dollar {blanks : Bytes} (blank : Blank blanks)
    (rest : Bytes) : Foreign (blanks ++ 36 :: rest) := by
  intro byte member
  rw [dropWhile_isSpace_of_blank blank] at member
  have same : (36 : UInt8) = byte := Option.some.inj member
  subst same
  rfl

/-- What is left of a text behind the bytes of a number. -/
theorem foreign_dropWhile (text : Bytes) :
    Foreign (text.dropWhile isNumeral) := by
  intro byte member
  cases left : text.dropWhile isNumeral with
  | nil =>
      rw [left] at member
      cases member
  | cons first rest =>
      have other : isNumeral first = false := by
        have head := List.head?_dropWhile_not isNumeral text
        rw [left] at head
        simpa using head
      rw [left, List.dropWhile_cons_of_neg
        (by rw [(isNumeral_false other).1]; decide)] at member
      obtain rfl : first = byte := Option.some.inj member
      exact other

/-- No line feed stands in front of it. -/
theorem getD_dropWhile (text : Bytes) :
    (text.dropWhile isNumeral).getD 0 0 ≠ 10 := by
  intro feed
  cases left : text.dropWhile isNumeral with
  | nil =>
      rw [left] at feed
      exact absurd feed (by decide)
  | cons first rest =>
      have head := List.head?_dropWhile_not isNumeral text
      rw [left] at head feed
      obtain rfl : first = 10 := feed
      have other : isNumeral 10 = false := head
      exact absurd other (by decide)

/-- A foreign text changes no number in front of it. -/
theorem Foreign.atoi_append {rest : Bytes} (foreign : Foreign rest)
    (text : Bytes) : atoi (text ++ rest) = atoi text := by
  rw [atoi, atoi]
  congr 1
  by_cases unbegun : Blank text
  · cases left : rest.dropWhile isSpace with
    | nil =>
        have blank : Blank rest := List.dropWhile_eq_nil_iff.mp left
        have both : Blank (text ++ rest) := by
          intro byte member
          rcases List.mem_append.mp member with front | back
          · exact unbegun byte front
          · exact blank byte back
        rw [strtoll_of_blank both, strtoll_of_blank unbegun]
    | cons first others =>
        have other : isNumeral first = false :=
          foreign first (by rw [left]; rfl)
        obtain ⟨space, digit, minus, plus⟩ := isNumeral_false other
        have front : Blank (rest.takeWhile isSpace) :=
          fun byte member => List.mem_takeWhile_imp member
        have both : Blank (text ++ rest.takeWhile isSpace) := by
          intro byte member
          rcases List.mem_append.mp member with here | there
          · exact unbegun byte here
          · exact front byte there
        have shape : text ++ rest =
            text ++ rest.takeWhile isSpace ++ first :: others := by
          rw [List.append_assoc, ← left, List.takeWhile_append_dropWhile]
        rw [shape, strtoll_stop _ space digit minus plus,
          strtoll_of_blank both, strtoll_of_blank unbegun]
  · refine strtoll_append unbegun ?_
    cases rest with
    | nil => trivial
    | cons byte rest =>
        change isDigit byte = false
        by_cases space : isSpace byte = true
        · by_contra digit
          rw [Bool.not_eq_false] at digit
          rw [(isDigit_separated digit).1] at space
          cases space
        · refine (isNumeral_false (foreign byte ?_)).2.1
          rw [List.dropWhile_cons_of_neg space]
          rfl

/-- One byte is no negative number. -/
theorem atoi_single (byte : UInt8) : 0 ≤ atoi [byte] := by
  by_cases space : isSpace byte = true
  · have blank : Blank [byte] := by
      intro other member
      rw [List.mem_singleton.mp member]
      exact space
    rw [atoi, strtoll_of_blank blank]
    decide
  · have kept : [byte].dropWhile isSpace = [byte] :=
      List.dropWhile_cons_of_neg space
    by_cases minus : byte = 45
    · subst minus
      decide
    by_cases plus : byte = 43
    · subst plus
      decide
    have unsigned : splitSign [byte] = (false, [byte]) := by
      simp [splitSign, minus, plus]
    have small : digitsValue ([byte].takeWhile isDigit) ≤ 255 := by
      have most := byte.toNat_lt
      rw [List.takeWhile_cons]
      split_ifs
      · simp only [List.takeWhile_nil, digitsValue, List.foldl_cons,
          List.foldl_nil]
        omega
      · exact Nat.zero_le _
    simp only [atoi, strtoll, kept, unsigned, Bool.false_eq_true, if_false]
    rw [min_eq_left (by omega), toInt32_of_range (by omega) (by omega)]
    exact Int.natCast_nonneg _

end Kivo.Clib.OpenNumeral
