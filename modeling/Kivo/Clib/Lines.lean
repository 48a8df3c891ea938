import Kivo.Clib.Scanning

/-!
# Reading a text line by line

`fgets` reads up to the end of a line or until its buffer is full, so a long
line comes in several pieces.  `sscanf` takes words out of such a piece: the
conversion `%63s` skips white space and reads at most 63 bytes up to the next
white space.

The lemmas say what a loop over `fgets` makes of a line that fits, and what the
conversions make of words between white space.
-/

namespace Kivo.Clib.Lines

open Kivo.Clib.Memory
open Kivo.Clib.Numeral
open Kivo.Clib.Scanning

/-! ## Lines -/

/-- `fgets` with room for `room` bytes in front of the NUL: the bytes that it
reads and those behind them. -/
def fgets (room : Nat) (text : Bytes) : Option (Bytes × Bytes) :=
  if text = [] then none
  else
    let count := min room
      ((text.takeWhile (fun byte => byte != 10)).length + 1)
    some (text.take count, text.drop count)

/-- What a loop of at most `fuel` calls of `fgets` reads. -/
def fgetsLoop (room : Nat) : Nat → Bytes → List Bytes
  | 0, _ => []
  | fuel + 1, text =>
      match fgets room text with
      | none => []
      | some (piece, rest) => piece :: fgetsLoop room fuel rest

/-- What a loop over `fgets` reads of a file. -/
def readPieces (room : Nat) (text : Bytes) : List Bytes :=
  fgetsLoop room text.length text

section Lines

variable {room : Nat}

/-- A call that finds something takes at least one byte. -/
theorem fgets_shorter (positive : 0 < room) {text piece rest : Bytes}
    (found : fgets room text = some (piece, rest)) :
    rest.length < text.length := by
  rw [fgets] at found
  split_ifs at found with nothing
  obtain ⟨-, rfl⟩ := Prod.mk.inj (Option.some.inj found)
  have some := List.length_pos_of_ne_nil nothing
  rw [List.length_drop]
  omega

/-- As many calls as there are bytes are enough. -/
theorem fgetsLoop_enough (positive : 0 < room) {fuel more : Nat}
    {text : Bytes} (enough : text.length ≤ fuel)
    (enough' : text.length ≤ more) :
    fgetsLoop room fuel text = fgetsLoop room more text := by
  induction fuel generalizing more text with
  | zero =>
      obtain rfl : text = [] := List.eq_nil_of_length_eq_zero (by omega)
      cases more <;> rfl
  | succ fuel induction =>
      cases more with
      | zero =>
          obtain rfl : text = [] := List.eq_nil_of_length_eq_zero (by omega)
          rfl
      | succ more =>
          rw [fgetsLoop, fgetsLoop]
          cases found : fgets room text with
          | none => rfl
          | some call =>
              have shorter := fgets_shorter positive found
              exact congrArg (call.1 :: ·)
                (induction (by omega) (by omega))

/-- A line that fits is read with its line end. -/
theorem readPieces_line {line : Bytes} (unbroken : (10 : UInt8) ∉ line)
    (fits : line.length < room) (rest : Bytes) :
    readPieces room (line ++ 10 :: rest) =
      (line ++ [10]) :: readPieces room rest := by
  have whole : (line ++ 10 :: rest).takeWhile (fun byte => byte != 10) =
      line := by
    rw [List.takeWhile_append_of_pos, List.takeWhile_cons, if_neg (by decide),
      List.append_nil]
    intro byte member
    rw [bne_iff_ne]
    rintro rfl
    exact unbroken member
  have count : min room (line.length + 1) = (line ++ [10]).length := by
    rw [List.length_append, List.length_singleton]
    omega
  have found : fgets room (line ++ 10 :: rest) = some (line ++ [10], rest) := by
    rw [fgets, if_neg (by simp), whole, count]
    dsimp only
    rw [List.append_cons line 10 rest, List.take_left, List.drop_left]
  have length : (line ++ 10 :: rest).length = line.length + rest.length + 1 := by
    rw [List.length_append, List.length_cons]
    omega
  rw [readPieces, length, fgetsLoop, found]
  exact congrArg ((line ++ [10]) :: ·)
    (fgetsLoop_enough (by omega) (by omega) le_rfl)

/-- The last line of a file may lack its end. -/
theorem readPieces_last {line : Bytes} (unbroken : (10 : UInt8) ∉ line)
    (fits : line.length ≤ room) (nonempty : line ≠ []) :
    readPieces room line = [line] := by
  have whole : line.takeWhile (fun byte => byte != 10) = line := by
    rw [List.takeWhile_eq_self_iff]
    intro byte member
    rw [bne_iff_ne]
    rintro rfl
    exact unbroken member
  have found : fgets room line = some (line, []) := by
    rw [fgets, if_neg nonempty, whole]
    dsimp only
    rw [List.take_of_length_le (by omega), List.drop_of_length_le (by omega)]
  obtain ⟨count, length⟩ := Nat.exists_eq_succ_of_ne_zero
    (Nat.ne_of_gt (List.length_pos_of_ne_nil nonempty))
  rw [readPieces, length, fgetsLoop, found]
  cases count <;> rfl

end Lines

/-! ## Words -/

/-- The conversion `%63s`, for any width: the word and what stands behind it. -/
def scanWord (width : Nat) (text : Bytes) : Option (Bytes × Bytes) :=
  let begun := text.dropWhile isSpace
  let word := (begun.takeWhile (fun byte => !isSpace byte)).take width
  if word = [] then none else some (word, begun.drop word.length)

/-- `sscanf(text, "%63s %63s", first, second)` with both words found. -/
def scanPair (width : Nat) (text : Bytes) : Option (Bytes × Bytes) :=
  (scanWord width (cString text)).bind (fun first =>
    (scanWord width first.2).map (fun second => (first.1, second.1)))

/-- A word that the conversion takes whole. -/
structure Word (width : Nat) (word : Bytes) : Prop where
  nonempty : word ≠ []
  fits : word.length ≤ width
  solid : ∀ byte ∈ word, isSpace byte = false
  nulFree : (0 : UInt8) ∉ word

/-- The test for such a word. -/
def isWord (width : Nat) (word : Bytes) : Bool :=
  !word.isEmpty && decide (word.length ≤ width) &&
    word.all (fun byte => !isSpace byte && byte != 0)

theorem word_of_isWord {width : Nat} {word : Bytes}
    (tested : isWord width word = true) : Word width word := by
  simp only [isWord, Bool.and_eq_true, Bool.not_eq_true',
    List.isEmpty_eq_false_iff, decide_eq_true_eq, List.all_eq_true,
    bne_iff_ne] at tested
  obtain ⟨⟨nonempty, fits⟩, solid⟩ := tested
  exact ⟨nonempty, fits, fun byte member => (solid byte member).1,
    fun member => (solid 0 member).2 rfl⟩

/-- A text that no word goes on in. -/
def EndsWord : Bytes → Prop
  | [] => True
  | byte :: _ => isSpace byte = true

section Words

variable {width : Nat} {before word rest : Bytes}

theorem scanWord_word (blank : Blank before) (proper : Word width word)
    (ends : EndsWord rest) :
    scanWord width (before ++ (word ++ rest)) = some (word, rest) := by
  have begun : (before ++ (word ++ rest)).dropWhile isSpace = word ++ rest := by
    rw [dropWhile_isSpace_of_blank blank]
    obtain ⟨byte, others, rfl⟩ :=
      List.exists_cons_of_ne_nil proper.nonempty
    rw [List.cons_append, List.dropWhile_cons, if_neg]
    rw [proper.solid byte List.mem_cons_self]
    exact Bool.false_ne_true
  have stopped : rest.takeWhile (fun byte => !isSpace byte) = [] := by
    cases rest with
    | nil => rfl
    | cons byte rest =>
        rw [List.takeWhile_cons, show isSpace byte = true from ends]
        rfl
  have taken : (word ++ rest).takeWhile (fun byte => !isSpace byte) =
      word := by
    rw [List.takeWhile_append_of_pos, stopped, List.append_nil]
    intro byte member
    rw [proper.solid byte member]
    rfl
  rw [scanWord, begun, taken, List.take_of_length_le proper.fits,
    if_neg proper.nonempty, List.drop_left]

theorem scanWord_blank (blank : Blank before) :
    scanWord width before = none := by
  rw [scanWord, List.dropWhile_eq_nil_iff.mpr blank, List.takeWhile_nil,
    List.take_nil, if_pos rfl]

end Words

theorem nulFree_of_blank {text : Bytes} (blank : Blank text) :
    (0 : UInt8) ∉ text := by
  intro member
  have space := blank 0 member
  exact absurd space (by decide)

theorem scanPair_blank {width : Nat} {text : Bytes} (blank : Blank text) :
    scanPair width text = none := by
  rw [scanPair, cString_of_nulFree (nulFree_of_blank blank),
    scanWord_blank blank]
  rfl

/-- Two words between white space, whatever follows them. -/
theorem scanPair_words {width : Nat} {before first between second : Bytes}
    (blank : Blank before) (left : Word width first)
    (gap : Blank between) (apart : between ≠ [])
    (right : Word width second) {rest : Bytes}
    (ends : EndsWord (cString rest)) :
    scanPair width
        (before ++ (first ++ (between ++ (second ++ rest)))) =
      some (first, second) := by
  have opened : EndsWord (between ++ (second ++ cString rest)) := by
    obtain ⟨byte, others, rfl⟩ := List.exists_cons_of_ne_nil apart
    exact gap byte List.mem_cons_self
  rw [scanPair, cString_append (nulFree_of_blank blank),
    cString_append left.nulFree, cString_append (nulFree_of_blank gap),
    cString_append right.nulFree, scanWord_word blank left opened]
  dsimp only [Option.bind_some]
  rw [scanWord_word gap right ends]
  rfl

end Kivo.Clib.Lines
