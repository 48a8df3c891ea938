import Kivo.Clib.OpenNumeral
import Kivo.Resp.WalkSafety

/-!
# Buffers that can be followed to their end

`has_complete_resp_command` has one answer for two situations: the buffer ends
too early, or it holds a byte that no command has at this place.

Here the walk over a buffer tells the two apart.  It may fail by coming to the
end of the buffer, at an argument that has not begun or at data that reaches
beyond it, as long as an `int` can measure the rest.  It may not fail at a byte
of the buffer.  What it leaves open is the number at the end of the buffer with
the end of its line, and the line feed of a CR LF that is half there: bytes of
white space, signs and digits can still make them up.
-/

namespace Kivo.Resp.Waiting

open Kivo.Clib.Memory
open Kivo.Clib.Numeral
open Kivo.Clib.OpenNumeral
open Kivo.Resp.Frame
open Kivo.Resp.WalkSafety (findCrlf_some walkArguments_succ)

/-! ## Following a buffer -/

/--
The argument loop of `has_complete_resp_command` over a whole buffer, unless it
fails at a byte of the buffer.  Behind the buffer an argument takes five bytes.
-/
def walkable (text : Bytes) : Nat → Int → Bool
  | 0, _ => true
  | count + 1, p =>
      if p = text.length then decide (p + 5 < 2 ^ 31)
      else if byteAt text p ≠ 36 then false
      else
        match findCrlf text p (text.length - p) with
        | none => false
        | some crlf =>
            let last := crlf + 2 + atoi (bytesFrom text (p + 1))
            if last + 2 > text.length then
              decide (text.length ≤ last ∧
                last + 2 + (if count = 0 then 0 else 5) < 2 ^ 31)
            else
              decide (byteAt text last = 13 ∧ byteAt text (last + 1) = 10) &&
                walkable text count (last + 2)

/-- A buffer with its first line, whose arguments can be walked over. -/
def followed (text : Bytes) : Bool :=
  decide (text.length < 2 ^ 31) &&
    match findCrlf text 0 text.length with
    | none => false
    | some crlf =>
        walkable text (atoi (bytesFrom text 1)).toNat (crlf + 2)

/-- The buffer can be followed when the number at its end and the end of its
line, or the line feed behind its last CR, are made up. -/
def Followable (text : Bytes) : Prop :=
  ∃ tail : Bytes, (∀ byte ∈ tail, isNumeral byte = true) ∧
    followed (text ++ tail) = true

/-! ## A buffer and an extension of it -/

theorem byteAt_append_left {text : Bytes} {address : Int}
    (inside : address < text.length) (more : Bytes) :
    byteAt (text ++ more) address = byteAt text address := by
  rw [byteAt, byteAt]
  split_ifs with nonnegative
  · rw [List.getD_append _ _ _ _ (by omega)]
  · rfl

theorem bytesFrom_append_left {text : Bytes} {address : Int}
    (inside : address ≤ text.length) (more : Bytes) :
    bytesFrom (text ++ more) address = bytesFrom text address ++ more := by
  rw [bytesFrom, bytesFrom, List.drop_append_of_le_length (by omega)]

theorem bytesFrom_length (text : Bytes) {address : Int}
    (nonnegative : 0 ≤ address) (inside : address ≤ text.length) :
    ((bytesFrom text address).length : Int) = text.length - address := by
  rw [bytesFrom, List.length_drop]
  omega

/-- The text from an address on begins with the byte there. -/
theorem bytesFrom_eq_cons {text : Bytes} {address : Int}
    (nonnegative : 0 ≤ address) (inside : address < text.length) :
    bytesFrom text address =
      byteAt text address :: bytesFrom text (address + 1) := by
  have next : (address + 1).toNat = address.toNat + 1 := by omega
  have within : address.toNat < text.length := by omega
  rw [bytesFrom, bytesFrom, byteAt, if_pos nonnegative, next,
    List.drop_eq_getElem_cons within, List.getD_eq_getElem _ _ within]

theorem byteAt_bytesFrom (text : Bytes) {address : Int}
    (nonnegative : 0 ≤ address) (offset : Nat) :
    byteAt text (address + offset) =
      (bytesFrom text address).getD offset 0 := by
  have index : (address + offset).toNat = address.toNat + offset := by omega
  rw [byteAt, if_pos (by omega), bytesFrom, index,
    List.getD_eq_getElem?_getD, List.getD_eq_getElem?_getD,
    List.getElem?_drop]

/-- The first CR LF behind an address of a whole buffer. -/
theorem findCrlf_whole (text : Bytes) {address : Int}
    (nonnegative : 0 ≤ address) (inside : address ≤ text.length) :
    findCrlf text address (text.length - address) =
      (crlfIndex (bytesFrom text address)).map
        (fun index => address + (index : Nat)) := by
  rw [← bytesFrom_length text nonnegative inside]
  exact findCrlf_of_holds ⟨nonnegative, List.prefix_rfl⟩

/-- What is behind a CR LF does not move it. -/
theorem crlfIndex_append {text : Bytes} {index : Nat}
    (found : crlfIndex text = some index) (more : Bytes) :
    crlfIndex (text ++ more) = some index := by
  induction text generalizing index with
  | nil => cases found
  | cons first rest induction =>
      cases rest with
      | nil => cases found
      | cons second rest =>
          rw [List.cons_append, List.cons_append, crlfIndex]
          rw [crlfIndex] at found
          split_ifs at found with terminator
          · rw [if_pos terminator]
            exact found
          · rw [if_neg terminator]
            obtain ⟨later, here, rfl⟩ := Option.map_eq_some_iff.mp found
            have shifted := induction here
            rw [List.cons_append] at shifted
            rw [shifted]
            rfl

/-- There is no CR LF in front of the first one. -/
theorem crlfIndex_le {text : Bytes} {index : Nat}
    (found : crlfIndex text = some index) {offset : Nat}
    (first : text.getD offset 0 = 13)
    (second : text.getD (offset + 1) 0 = 10) : index ≤ offset := by
  induction text generalizing index offset with
  | nil => cases found
  | cons byte rest induction =>
      cases rest with
      | nil => cases found
      | cons other rest =>
          rw [crlfIndex] at found
          split_ifs at found with terminator
          · obtain rfl : 0 = index := Option.some.inj found
            exact Nat.zero_le offset
          · obtain ⟨later, here, rfl⟩ := Option.map_eq_some_iff.mp found
            cases offset with
            | zero => exact absurd ⟨first, second⟩ terminator
            | succ offset =>
                exact Nat.succ_le_succ (induction here first second)

/-- A CR LF of the buffer. -/
def Ends (text : Bytes) (last : Int) : Prop :=
  0 ≤ last ∧ last + 2 ≤ text.length ∧ byteAt text last = 13 ∧
    byteAt text (last + 1) = 10

/-- Two bytes that are there are inside the buffer. -/
theorem ends_of_bytes {text : Bytes} {last : Int}
    (first : byteAt text last = 13) (second : byteAt text (last + 1) = 10) :
    Ends text last := by
  have lower := byteAt_ne_zero_bounds
    (show byteAt text last ≠ 0 by rw [first]; decide)
  have upper := byteAt_ne_zero_bounds
    (show byteAt text (last + 1) ≠ 0 by rw [second]; decide)
  exact ⟨lower.1, by omega, first, second⟩

theorem Ends.append {text : Bytes} {last : Int} (ends : Ends text last)
    (more : Bytes) : Ends (text ++ more) last := by
  obtain ⟨nonnegative, inside, first, second⟩ := ends
  refine ⟨nonnegative, ?_, ?_, ?_⟩
  · rw [List.length_append]
    omega
  · rw [byteAt_append_left (by omega), first]
  · rw [byteAt_append_left (by omega), second]

/-- The first CR LF behind an address is one of the buffer. -/
theorem ends_of_crlfIndex {text : Bytes} {p : Int} (nonnegative : 0 ≤ p)
    {index : Nat} (found : crlfIndex (bytesFrom text p) = some index) :
    Ends text (p + index) := by
  have inside : p ≤ text.length := by
    by_contra beyond
    have blank : bytesFrom text p = [] :=
      List.drop_of_length_le (by omega)
    rw [blank] at found
    cases found
  have line : findCrlf text p (text.length - p) = some (p + index) := by
    rw [findCrlf_whole text nonnegative inside, found]
    rfl
  obtain ⟨-, -, first, second⟩ := findCrlf_some line
  exact ends_of_bytes first second

/-- One round over a buffer: it comes to the end, or its CR LF is there and
the walk goes on behind it. -/
theorem walkable_succ {text : Bytes} {p : Int} (nonnegative : 0 ≤ p)
    (inside : p ≤ text.length) (count : Nat) :
    walkable text (count + 1) p = true ↔
      p = text.length ∧ p + 5 < 2 ^ 31 ∨
        p < text.length ∧ byteAt text p = 36 ∧
          ∃ index : Nat, crlfIndex (bytesFrom text p) = some index ∧
            (let last := p + index + 2 + atoi (bytesFrom text (p + 1))
             text.length ≤ last ∧
                last + 2 + (if count = 0 then 0 else 5) < 2 ^ 31 ∨
              Ends text last ∧ walkable text count (last + 2) = true) := by
  rw [walkable, findCrlf_whole text nonnegative inside]
  by_cases final : p = text.length
  · rw [if_pos final, decide_eq_true_iff]
    constructor
    · intro room
      exact Or.inl ⟨final, room⟩
    · rintro (⟨-, room⟩ | ⟨within, -⟩)
      · exact room
      · omega
  · rw [if_neg final]
    by_cases mark : byteAt text p = 36
    · rw [if_neg (not_not_intro mark)]
      cases found : crlfIndex (bytesFrom text p) with
      | none => simp [final]
      | some index =>
          simp only [Option.map_some, Option.some.injEq, exists_eq_left', final,
            mark, false_and, false_or, true_and]
          generalize p + index + 2 + atoi (bytesFrom text (p + 1)) = last
          generalize (if count = 0 then (0 : Int) else 5) = missing
          split_ifs with beyond
          · rw [decide_eq_true_iff]
            constructor
            · intro fits
              exact ⟨by omega, Or.inl fits⟩
            · rintro ⟨-, fits | ⟨⟨-, within, -⟩, -⟩⟩
              · exact fits
              · omega
          · rw [Bool.and_eq_true, decide_eq_true_iff]
            constructor
            · rintro ⟨⟨first, second⟩, rest⟩
              exact ⟨by omega, Or.inr ⟨ends_of_bytes first second, rest⟩⟩
            · rintro ⟨-, ⟨early, -⟩ | ⟨⟨-, -, first, second⟩, rest⟩⟩
              · omega
              · exact ⟨⟨first, second⟩, rest⟩
    · rw [if_pos mark]
      simp [final, mark]

/-! ## One round of the walk -/

/-- One round of the walk over a whole buffer, behind a line with its end. -/
theorem walkArguments_line {text : Bytes} (int : text.length < 2 ^ 31)
    {p : Int} (nonnegative : 0 ≤ p) (inside : p < text.length)
    (mark : byteAt text p = 36) {index : Nat}
    (found : crlfIndex (bytesFrom text p) = some index) (count : Nat) :
    walkArguments text 0 text.length (count + 1) p =
      let argLen := atoi (bytesFrom text (p + 1))
      let data := p + index + 2
      if data + argLen + 2 > text.length then none
      else if byteAt text (data + argLen) ≠ 13 ∨
          byteAt text (data + argLen + 1) ≠ 10 then none
      else walkArguments text 0 text.length count (data + argLen + 2) := by
  have line : findCrlf text p (toInt32 (text.length - (p - 0))) =
      some (p + index) := by
    rw [Int.sub_zero, toInt32_of_range (by omega) (by omega),
      findCrlf_whole text nonnegative (by omega), found]
    rfl
  have present : ¬ (p - 0 ≥ (text.length : Int) ∨ byteAt text p ≠ 36) := by
    rintro (outside | other)
    · omega
    · exact other mark
  rw [walkArguments, if_neg present, line]
  simp only [Int.sub_zero]

/-- Everything a successful round over a whole buffer has checked. -/
theorem walkArguments_round {text : Bytes} (int : text.length < 2 ^ 31)
    {p : Int} (nonnegative : 0 ≤ p) {count : Nat} {end_ : Int}
    (walked : walkArguments text 0 text.length (count + 1) p = some end_) :
    p < text.length ∧ byteAt text p = 36 ∧
      ∃ index : Nat, crlfIndex (bytesFrom text p) = some index ∧
        (let last := p + index + 2 + atoi (bytesFrom text (p + 1))
         Ends text last ∧
          walkArguments text 0 text.length count (last + 2) = some end_) := by
  obtain ⟨crlf, inside, mark, found, -, first, second, rest⟩ :=
    walkArguments_succ walked
  rw [Int.sub_zero] at inside
  rw [Int.sub_zero, toInt32_of_range (by omega) (by omega),
    findCrlf_whole text nonnegative (by omega)] at found
  obtain ⟨index, here, rfl⟩ := Option.map_eq_some_iff.mp found
  exact ⟨inside, mark, index, here, ends_of_bytes first second, rest⟩

/-- An argument takes five bytes, even when its length is negative. -/
theorem walkArguments_five {text : Bytes} (int : text.length < 2 ^ 31)
    {p : Int} (nonnegative : 0 ≤ p) {count : Nat} {end_ : Int}
    (walked : walkArguments text 0 text.length (count + 1) p = some end_) :
    p + 5 ≤ text.length := by
  obtain ⟨inside, mark, index, found, ends, -⟩ :=
    walkArguments_round int nonnegative walked
  obtain ⟨-, within, carriage, feed⟩ := ends_of_crlfIndex nonnegative found
  have behind : index ≠ 0 := by
    rintro rfl
    rw [Nat.cast_zero, Int.add_zero, mark] at carriage
    exact absurd carriage (by decide)
  obtain ⟨-, reach, -, -⟩ := ends
  by_contra few
  have negative : atoi (bytesFrom text (p + 1)) < 0 := by omega
  have tail := bytesFrom_length text (show 0 ≤ p + 1 by omega) (by omega)
  rcases (show index = 1 ∨ index = 2 by omega) with rfl | rfl
  · -- CR LF stands behind the dollar sign, and at most one byte behind it.
    have opened : bytesFrom text (p + 1) =
        [13, 10] ++ bytesFrom text (p + 1 + 1 + 1) := by
      rw [bytesFrom_eq_cons (by omega) (by omega),
        bytesFrom_eq_cons (by omega) (by omega)]
      simp only [Nat.cast_one] at carriage feed
      rw [carriage, feed]
      rfl
    rw [opened] at negative tail
    rw [List.length_append] at tail
    have least : 0 ≤ atoi ([13, 10] ++ bytesFrom text (p + 1 + 1 + 1)) := by
      rcases h : bytesFrom text (p + 1 + 1 + 1) with - | ⟨byte, rest⟩
      · decide
      · rw [h] at tail
        have single : rest = [] := by
          rw [← List.length_eq_zero_iff]
          simp only [List.length_cons, List.length_nil] at tail
          omega
        rw [single, atoi, strtoll, dropWhile_isSpace_of_blank (by decide)]
        exact atoi_single byte
    omega
  · -- One byte stands between the dollar sign and the last CR LF.
    have closed : bytesFrom text (p + 1) = [byteAt text (p + 1)] ++ [13, 10] := by
      rw [bytesFrom_eq_cons (by omega) (by omega),
        bytesFrom_eq_cons (by omega) (by omega),
        bytesFrom_eq_cons (by omega) (by omega)]
      have blank : bytesFrom text (p + 1 + 1 + 1 + 1) = [] :=
        List.drop_of_length_le (by omega)
      have first : byteAt text (p + 1 + 1) = 13 := by
        rw [← carriage]
        congr 1
        push_cast
        omega
      have second : byteAt text (p + 1 + 1 + 1) = 10 := by
        rw [← feed]
        congr 1
        push_cast
        omega
      rw [blank, first, second]
      rfl
    rw [closed, (foreign_of_blank (show Blank [13, 10] by decide)).atoi_append]
      at negative
    have least := atoi_single (byteAt text (p + 1))
    omega

end Kivo.Resp.Waiting
