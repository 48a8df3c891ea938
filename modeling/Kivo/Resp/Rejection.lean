import Kivo.Resp.Stream
import Kivo.Resp.Waiting

/-!
# What a rejected buffer can still become

The caller of `has_complete_resp_command` takes a rejection for a command that
has not arrived whole, and waits.  A buffer that can be followed to its end is
completed by some bytes: by the end of a line or of an argument, and behind it
by one argument of negative length that leads the walk back to itself and so
stands for all arguments that are missing.  A buffer that cannot is completed
by nothing: of what completes it, the bytes that its last number goes on with
and the end of the line are all that the walk over the buffer depends on.
`protocol_process_stream` reports no error for either.
-/

namespace Kivo.Resp.Rejection

open Kivo.Clib.Memory
open Kivo.Clib.Numeral
open Kivo.Clib.OpenNumeral
open Kivo.Resp.Frame
open Kivo.Resp.Stream
open Kivo.Resp.Waiting
open Kivo.Server.State

/-! ## Arguments that lead back -/

/-- An argument that leads back to itself stands for any number of
arguments. -/
theorem walkArguments_loop
    {text : Bytes}
    (int : text.length < 2 ^ 31)
    {p : Int}
    (inside : p < text.length)
    (mark : byteAt text p = 36)
    (boundary : Ends text (p - 2))
    {index : Nat}
    (found : crlfIndex (bytesFrom text p) = some index)
    (back : atoi (bytesFrom text (p + 1)) = -(index + 4 : Nat))
    (count : Nat) :
    walkArguments text 0 text.length count p = some p := by
  obtain ⟨lower, -, first, second⟩ := boundary
  induction count with
  | zero => rfl
  | succ count induction =>
      have last : p + index + 2 + -((index + 4 : Nat) : Int) = p - 2 := by
        omega
      rw [walkArguments_line int (by omega) inside mark found, back]
      dsimp only
      rw [last, if_neg (by omega), if_neg (by simp [first, second]),
        Int.sub_add_cancel]
      exact induction

/-- An argument of length `-7` behind a CR LF leads back to itself. -/
def backward : Bytes :=
  ascii "$-7\r\n"

theorem walkArguments_backward
    {front : Bytes}
    (int : (front ++ 13 :: 10 :: backward).length < 2 ^ 31)
    (count : Nat) :
    walkArguments (front ++ 13 :: 10 :: backward) 0
        (front ++ 13 :: 10 :: backward).length count (front.length + 2) =
      some ((front.length : Int) + 2) := by
  have view : ∀ offset : Nat,
      byteAt (front ++ 13 :: 10 :: backward) (front.length + offset) =
        (13 :: 10 :: backward).getD offset 0 := byteAt_append front _
  have rest : bytesFrom (front ++ 13 :: 10 :: backward) (front.length + 2) =
      backward := bytesFrom_append front _ 2
  have number : bytesFrom (front ++ 13 :: 10 :: backward)
      (front.length + 2 + 1) = ascii "-7\r\n" := by
    rw [add_assoc]
    exact bytesFrom_append front _ 3
  have length : (front ++ 13 :: 10 :: backward).length =
      front.length + 7 := List.length_append
  have boundary : Ends (front ++ 13 :: 10 :: backward)
      ((front.length : Int) + 2 - 2) := by
    rw [Int.add_sub_cancel]
    refine ⟨by omega, by omega, ?_, view 1⟩
    simpa using view 0
  have mark : byteAt (front ++ 13 :: 10 :: backward) (front.length + 2) =
      36 := view 2
  refine walkArguments_loop int (by omega) mark boundary
    (show _ = some 3 by rw [rest]; rfl) ?_ count
  rw [number]
  decide

/-- An argument that the completion ends, with all arguments behind it. -/
theorem walkArguments_completed
    {whole front rest : Bytes}
    (shape : whole = front ++ 13 :: 10 :: rest)
    (int : whole.length < 2 ^ 31)
    {count : Nat}
    (missing : count = 0 ∨ rest = backward)
    {p : Int}
    (nonnegative : 0 ≤ p)
    (inside : p < whole.length)
    (mark : byteAt whole p = 36)
    {index : Nat}
    (found : crlfIndex (bytesFrom whole p) = some index)
    (reaches : p + index + 2 + atoi (bytesFrom whole (p + 1)) = front.length) :
    walkArguments whole 0 whole.length (count + 1) p =
      some ((front.length : Int) + 2) := by
  have first : byteAt whole front.length = 13 := by
    rw [shape]
    simpa using byteAt_append front (13 :: 10 :: rest) 0
  have second : byteAt whole (front.length + 1) = 10 := by
    rw [shape]
    exact byteAt_append front (13 :: 10 :: rest) 1
  have length : whole.length = front.length + (rest.length + 2) := by
    rw [shape]
    exact List.length_append
  rw [walkArguments_line int nonnegative inside mark found]
  dsimp only
  rw [reaches, if_neg (by omega), if_neg (by simp only [first, second]; decide)]
  rcases missing with rfl | rfl
  · rfl
  · subst shape
    exact walkArguments_backward int count

/-! ## Completing a walk -/

/-- A buffer that ends with CR LF. -/
theorem take_append_crlf
    {text : Bytes}
    {last : Int}
    (ends : Ends text last)
    (final : last + 2 = text.length) :
    text = text.take last.toNat ++ [13, 10] := by
  obtain ⟨nonnegative, -, first, second⟩ := ends
  have tail : bytesFrom text last = [13, 10] := by
    rw [bytesFrom_eq_cons nonnegative (by omega),
      bytesFrom_eq_cons (by omega) (by omega), first, second, bytesFrom,
      List.drop_of_length_le (by omega)]
  rw [← tail, bytesFrom, List.take_append_drop]

/-- The end of an argument behind `filler` bytes of its data. -/
theorem foreign_filler
    (filler : Nat)
    {rest : Bytes}
    (missing : rest = [] ∨ rest = backward) :
    Foreign (List.replicate filler 36 ++ 13 :: 10 :: rest) := by
  cases filler with
  | succ filler => exact foreign_dollar (show Blank [] by decide) _
  | zero =>
      rcases missing with rfl | rfl
      · exact foreign_of_blank (by decide)
      · exact foreign_dollar (show Blank [13, 10] by decide) _

/-- The bytes that complete an argument whose data reaches to the end of the
buffer or beyond it, and the arguments behind it. -/
theorem walkArguments_short
    {text : Bytes}
    {p : Int}
    (nonnegative : 0 ≤ p)
    (inside : p < text.length)
    (mark : byteAt text p = 36)
    {index : Nat}
    (found : crlfIndex (bytesFrom text p) = some index)
    {last : Int}
    (reaches : p + index + 2 + atoi (bytesFrom text (p + 1)) = last)
    (short : text.length ≤ last)
    {count : Nat}
    (room : last + 2 + (if count = 0 then 0 else 5) < 2 ^ 31) :
    ∃ more end_, Foreign more ∧ (text ++ more).length < 2 ^ 31 ∧
      walkArguments (text ++ more) 0 (text ++ more).length (count + 1) p =
        some end_ := by
  obtain ⟨rest, missing, size⟩ : ∃ rest : Bytes,
      (count = 0 ∧ rest = [] ∨ rest = backward) ∧
        (rest.length : Int) = if count = 0 then 0 else 5 := by
    split_ifs with alone
    · exact ⟨[], Or.inl ⟨alone, rfl⟩, rfl⟩
    · exact ⟨backward, Or.inr rfl, rfl⟩
  rw [← size] at room
  obtain ⟨filler, beyond⟩ := Int.eq_ofNat_of_zero_le (Int.sub_nonneg_of_le short)
  have foreign := foreign_filler filler (missing.imp And.right id)
  have shape : text ++ (List.replicate filler 36 ++ 13 :: 10 :: rest) =
      text ++ List.replicate filler 36 ++ 13 :: 10 :: rest :=
    (List.append_assoc _ _ _).symm
  have front : ((text ++ List.replicate filler 36).length : Int) = last := by
    rw [List.length_append, List.length_replicate]
    omega
  have length : ((text ++ (List.replicate filler 36 ++
      13 :: 10 :: rest)).length : Int) = last + (rest.length + 2) := by
    rw [shape, List.length_append, Nat.cast_add, front]
    rfl
  have line : crlfIndex (bytesFrom (text ++ (List.replicate filler 36 ++
      13 :: 10 :: rest)) p) = some index := by
    rw [bytesFrom_append_left (by omega)]
    exact crlfIndex_append found _
  refine ⟨_, _, foreign, by omega, walkArguments_completed shape (by omega)
    (missing.imp And.left id) nonnegative (by omega)
    ((byteAt_append_left inside _).trans mark) line ?_⟩
  rw [bytesFrom_append_left (by omega), foreign.atoi_append, reaches, front]

/-- The bytes that complete a walk change no number in front of them. -/
theorem walkArguments_walkable
    {text : Bytes}
    (int : text.length < 2 ^ 31)
    {count : Nat}
    {p : Int}
    (boundary : Ends text (p - 2))
    (walk : walkable text count p = true) :
    ∃ more end_, Foreign more ∧ (text ++ more).length < 2 ^ 31 ∧
      walkArguments (text ++ more) 0 (text ++ more).length count p =
        some end_ := by
  induction count generalizing p with
  | zero =>
      refine ⟨[], p, foreign_of_blank (by decide), ?_, rfl⟩
      rw [List.append_nil]
      exact int
  | succ count induction =>
      obtain ⟨lower, upper, -, -⟩ := id boundary
      have nonnegative : 0 ≤ p := by omega
      rcases (walkable_succ nonnegative (by omega) count).mp walk with
        ⟨final, room⟩ | ⟨inside, mark, index, found, step⟩
      · -- All arguments that are missing.
        have whole := take_append_crlf boundary (by omega)
        have size : ((text.take (p - 2).toNat).length : Int) + 2 = p := by
          rw [List.length_take]
          omega
        have shape : text ++ backward =
            text.take (p - 2).toNat ++ 13 :: 10 :: backward := by
          nth_rewrite 1 [whole]
          rw [List.append_assoc]
          rfl
        have length : (text ++ backward).length = text.length + 5 :=
          List.length_append
        refine ⟨backward, p, foreign_dollar (show Blank [] by decide) _,
          by omega, ?_⟩
        rw [shape] at length ⊢
        have loop := @walkArguments_backward (text.take (p - 2).toNat)
          (by omega) (count + 1)
        rw [size] at loop
        exact loop
      · dsimp only at step
        generalize reaches : p + index + 2 +
          atoi (bytesFrom text (p + 1)) = last at step
        rcases step with ⟨short, room⟩ | ⟨ends, rest⟩
        · exact walkArguments_short nonnegative inside mark found reaches short
            room
        · obtain ⟨more, end_, foreign, room, walked⟩ := induction
            (p := last + 2) (by rwa [Int.add_sub_cancel]) rest
          obtain ⟨-, within, first, second⟩ := ends.append more
          refine ⟨more, end_, foreign, room, ?_⟩
          have line : crlfIndex (bytesFrom (text ++ more) p) = some index := by
            rw [bytesFrom_append_left (by omega)]
            exact crlfIndex_append found more
          rw [walkArguments_line room nonnegative
            (by rw [List.length_append]; omega)
            ((byteAt_append_left inside more).trans mark) line,
            bytesFrom_append_left (by omega), foreign.atoi_append]
          dsimp only
          rw [reaches, if_neg (by omega), if_neg (by simp [first, second])]
          exact walked

/-! ## What a completion is used for -/

/--
Behind `front`, the walk meets in `fill` what it meets in `rest`: the line that
is open at the end of `front` ends at the same place or in neither, and `fill`
holds nothing else that could end a line or an argument.
-/
structure Mirrors (front rest fill : Bytes) : Prop where
  shorter : fill.length ≤ rest.length
  foreign : Foreign rest ∧ Foreign fill
  line : ∀ open_, open_ <:+ front → open_.getD 0 10 ≠ 10 →
    crlfIndex (open_ ++ fill) = crlfIndex (open_ ++ rest)
  ends : ∀ last, Ends (front ++ rest) last →
    Ends (front ++ fill) last ∨ ((front ++ fill).length : Int) ≤ last
  starts : ∀ p, Ends (front ++ fill) (p - 2) →
    p < (front ++ fill).length → p < front.length

section Mirror

variable {front rest fill : Bytes}

/-- The end of a line of the buffer and of what stands behind it. -/
theorem Mirrors.line_at
    (mirrors : Mirrors front rest fill)
    {p : Int}
    (nonnegative : 0 ≤ p)
    (inside : p < front.length)
    (other : byteAt front p ≠ 10) :
    crlfIndex (bytesFrom (front ++ fill) p) =
      crlfIndex (bytesFrom (front ++ rest) p) := by
  rw [bytesFrom_append_left (by omega), bytesFrom_append_left (by omega)]
  refine mirrors.line _ (List.drop_suffix _ _) ?_
  rw [bytesFrom_eq_cons nonnegative inside]
  exact other

/-- A walk that goes through behind `rest` can be followed behind `fill`. -/
theorem Mirrors.walkable
    (mirrors : Mirrors front rest fill)
    (int : (front ++ rest).length < 2 ^ 31)
    {count : Nat}
    {p end_ : Int}
    (boundary : Ends (front ++ fill) (p - 2))
    (walked : walkArguments (front ++ rest) 0 (front ++ rest).length count p =
      some end_) :
    walkable (front ++ fill) count p = true := by
  induction count generalizing p with
  | zero => rfl
  | succ count induction =>
      obtain ⟨lower, upper, -, -⟩ := id boundary
      have nonnegative : 0 ≤ p := by omega
      have five := walkArguments_five int nonnegative walked
      rw [walkable_succ nonnegative (by omega)]
      by_cases final : p = (front ++ fill).length
      · exact Or.inl ⟨final, by omega⟩
      · have inside := mirrors.starts p boundary (by omega)
        obtain ⟨-, mark, index, found, ends, later⟩ :=
          walkArguments_round int nonnegative walked
        rw [byteAt_append_left inside] at mark
        rw [← mirrors.line_at nonnegative inside (by rw [mark]; decide)]
          at found
        rw [bytesFrom_append_left (by omega), mirrors.foreign.1.atoi_append]
          at ends later
        refine Or.inr ⟨by omega, (byteAt_append_left inside fill).trans mark,
          index, found, ?_⟩
        rw [bytesFrom_append_left (by omega), mirrors.foreign.2.atoi_append]
        dsimp only
        generalize p + index + 2 + atoi (bytesFrom front (p + 1)) = last
          at ends later
        rcases mirrors.ends last ends with here | beyond
        · exact Or.inr ⟨here, induction (by rwa [Int.add_sub_cancel]) later⟩
        · obtain ⟨-, within, -, -⟩ := ends
          refine Or.inl ⟨beyond, ?_⟩
          cases count with
          | zero =>
              rw [if_pos rfl]
              omega
          | succ count =>
              have behind := walkArguments_five int (by omega) later
              rw [if_neg (Nat.succ_ne_zero count)]
              omega

/-- A CR LF of the whole is one of the front, or stands behind it. -/
theorem ends_split
    (unjoined : rest.getD 0 0 ≠ 10)
    {last : Int}
    (ends : Ends (front ++ rest) last) :
    Ends front last ∨
      ∃ offset : Nat, last = front.length + offset ∧
        rest.getD offset 0 = 13 ∧ rest.getD (offset + 1) 0 = 10 := by
  obtain ⟨nonnegative, -, first, second⟩ := ends
  by_cases behind : (front.length : Int) ≤ last
  · obtain ⟨offset, shift⟩ :=
      Int.eq_ofNat_of_zero_le (Int.sub_nonneg_of_le behind)
    obtain rfl : last = front.length + offset := by omega
    refine Or.inr ⟨offset, rfl, ?_, ?_⟩
    · rw [← first, byteAt_append]
    · rw [← second, add_assoc]
      exact (byteAt_append front rest (offset + 1)).symm
  · have within : last + 1 < front.length := by
      by_contra crossing
      have edge : last + 1 = front.length + (0 : Nat) := by omega
      rw [edge, byteAt_append] at second
      exact unjoined second
    rw [byteAt_append_left (by omega)] at first
    rw [byteAt_append_left within] at second
    exact Or.inl (ends_of_bytes first second)

/-- An open line goes on into what stands behind it. -/
theorem crlfIndex_open
    (unended : crlfIndex front = none)
    (unjoined : rest.getD 0 0 ≠ 10) :
    crlfIndex (front ++ rest) =
      (crlfIndex rest).map (· + front.length) := by
  cases rest with
  | nil =>
      rw [List.append_nil, unended]
      rfl
  | cons first others => exact crlfIndex_skip unended unjoined others

/-- The bytes of the first CR LF. -/
theorem getD_of_crlfIndex
    {index : Nat}
    (found : crlfIndex rest = some index) :
    rest.getD index 0 = 13 ∧ rest.getD (index + 1) 0 = 10 := by
  have ends := @ends_of_crlfIndex rest 0 (le_refl 0) index found
  obtain ⟨-, -, first, second⟩ := ends
  rw [byteAt_bytesFrom rest (le_refl 0)] at first
  rw [add_assoc] at second
  exact ⟨first, (byteAt_bytesFrom rest (le_refl 0) (index + 1)).symm.trans second⟩

/-- When the front has ended its last line, or nothing ends it, the front is
all that the walk can be followed over. -/
theorem mirrors_nothing
    (unjoined : rest.getD 0 0 ≠ 10)
    (foreign : Foreign rest)
    (closed : [13, 10] <:+ front ∨ crlfIndex rest = none) :
    Mirrors front rest [] where
  shorter := Nat.zero_le _
  foreign := ⟨foreign, foreign_of_blank (by decide)⟩
  line open_ suffix other := by
    rw [List.append_nil]
    cases ended : crlfIndex open_ with
    | some index => rw [crlfIndex_append ended]
    | none =>
        rcases closed with closed | unended
        · rcases List.suffix_or_suffix_of_suffix suffix closed with
            short | long
          · have cases_ : open_ = [] ∨ open_ = [10] ∨ open_ = [13, 10] := by
              simpa [List.suffix_cons_iff, or_comm, or_assoc, or_left_comm]
                using short
            rcases cases_ with rfl | rfl | rfl
            · exact absurd rfl other
            · exact absurd rfl other
            · cases ended
          · obtain ⟨line, rfl⟩ := long
            cases early : crlfIndex line with
            | some index =>
                rw [crlfIndex_append early] at ended
                cases ended
            | none =>
                rw [crlfIndex_skip early (by decide)] at ended
                cases ended
        · rw [crlfIndex_open ended unjoined, unended]
          rfl
  ends last ends := by
    rcases ends_split unjoined ends with here | ⟨offset, behind, -⟩
    · exact Or.inl (here.append [])
    · refine Or.inr ?_
      rw [List.append_nil]
      omega
  starts p _ inside := by
    rwa [List.append_nil] at inside

/-- The end that the open line of the front gets. -/
def lineEnd (blanks : Nat) : Bytes :=
  List.replicate blanks 32 ++ [13, 10]

theorem crlfIndex_lineEnd (blanks : Nat) :
    crlfIndex (lineEnd blanks) = some blanks := by
  have plain : (13 : UInt8) ∉ List.replicate blanks 32 :=
    fun member => absurd (List.eq_of_mem_replicate member) (by decide)
  have ended := crlfIndex_line plain []
  rwa [List.length_replicate] at ended

theorem length_lineEnd (blanks : Nat) :
    (lineEnd blanks).length = blanks + 2 := by
  rw [lineEnd, List.length_append, List.length_replicate]
  rfl

theorem mem_lineEnd {blanks : Nat} {byte : UInt8}
    (member : byte ∈ lineEnd blanks) : isSpace byte = true := by
  rcases List.mem_append.mp member with blank | ending
  · rw [List.eq_of_mem_replicate blank]
    rfl
  · have both : byte = 13 ∨ byte = 10 := by simpa using ending
    rcases both with rfl | rfl <;> rfl

theorem lineEnd_unjoined (blanks : Nat) : (lineEnd blanks).getD 0 0 ≠ 10 := by
  cases blanks with
  | zero => decide
  | succ blanks => exact (show (32 : UInt8) ≠ 10 by decide)

/-- An open line of the front ends, for the walk, behind blanks as well as
behind what stands there. -/
theorem mirrors_lineEnd
    (unjoined : rest.getD 0 0 ≠ 10)
    (foreign : Foreign rest)
    (unclosed : ¬ [13, 10] <:+ front)
    {index : Nat}
    (found : crlfIndex rest = some index) :
    Mirrors front rest (lineEnd index) where
  shorter := by
    have ends := @ends_of_crlfIndex rest 0 (le_refl 0) index found
    have within := ends.2.1
    rw [length_lineEnd]
    omega
  foreign := ⟨foreign, foreign_of_blank fun _ => mem_lineEnd⟩
  line open_ _ _ := by
    cases ended : crlfIndex open_ with
    | some early => rw [crlfIndex_append ended, crlfIndex_append ended]
    | none =>
        rw [crlfIndex_open ended unjoined,
          crlfIndex_open ended (lineEnd_unjoined index), crlfIndex_lineEnd,
          found]
  ends last ends := by
    rcases ends_split unjoined ends with here | ⟨offset, rfl, first, second⟩
    · exact Or.inl (here.append _)
    · have late := crlfIndex_le found first second
      have next : offset ≠ index + 1 := by
        rintro rfl
        rw [(getD_of_crlfIndex found).2] at first
        exact absurd first (by decide)
      rcases eq_or_ne offset index with rfl | other
      · obtain ⟨carriage, feed⟩ := getD_of_crlfIndex (crlfIndex_lineEnd offset)
        refine Or.inl (ends_of_bytes ?_ ?_)
        · rw [byteAt_append, carriage]
        · rw [add_assoc]
          exact (byteAt_append front _ (offset + 1)).trans feed
      · refine Or.inr ?_
        rw [List.length_append, length_lineEnd]
        omega
  starts p boundary inside := by
    rcases ends_split (lineEnd_unjoined index) boundary with
      here | ⟨offset, behind, first, second⟩
    · have within := here.2.1
      rcases eq_or_ne p front.length with final | other
      · refine absurd ⟨front.take (p - 2).toNat, ?_⟩ unclosed
        exact (take_append_crlf here (by omega)).symm
      · omega
    · have late := crlfIndex_le (crlfIndex_lineEnd index) first second
      rw [List.length_append, length_lineEnd] at inside
      omega

/-- Whatever stands behind the front, bytes of numbers can replace it. -/
theorem exists_mirrors
    (front : Bytes)
    (unjoined : rest.getD 0 0 ≠ 10)
    (foreign : Foreign rest) :
    ∃ fill, (∀ byte ∈ fill, isNumeral byte = true) ∧
      Mirrors front rest fill := by
  by_cases closed : [13, 10] <:+ front
  · exact ⟨[], by simp, mirrors_nothing unjoined foreign (Or.inl closed)⟩
  · cases found : crlfIndex rest with
    | none => exact ⟨[], by simp, mirrors_nothing unjoined foreign (Or.inr found)⟩
    | some index =>
        refine ⟨lineEnd index, fun byte member => ?_,
          mirrors_lineEnd unjoined foreign closed found⟩
        simp [isNumeral, mem_lineEnd member]

end Mirror

/-! ## The first line -/

theorem findCrlf_start (text : Bytes) :
    findCrlf text 0 text.length =
      (crlfIndex text).map (fun index : Nat => (index : Int)) := by
  have whole := findCrlf_whole text (le_refl 0) (by omega)
  simpa only [Int.sub_zero, Int.zero_add, bytesFrom, Int.toNat_zero,
    List.drop_zero] using whole

/-- The probe on a whole buffer behind its first line. -/
theorem hasCompleteRespCommand_whole
    {text : Bytes}
    (star : byteAt text 0 = 42)
    (four : 4 ≤ text.length)
    {index : Nat}
    (found : crlfIndex text = some index) :
    hasCompleteRespCommand text 0 text.length =
      (walkArguments text 0 text.length (atoi (bytesFrom text 1)).toNat
        (index + 2)).map (fun p => toInt32 (p - 0)) := by
  have begun : ¬ ((text.length : Int) < 4 ∨ byteAt text 0 ≠ 42) := by
    rintro (short | other)
    · omega
    · exact other star
  rw [hasCompleteRespCommand, if_neg begun, findCrlf_start, found]
  rfl

/-- What the probe has found in a buffer that it accepts. -/
theorem walk_of_accepted
    {text : Bytes}
    {length : Int}
    (accepted : hasCompleteRespCommand text 0 text.length = some length) :
    ∃ index : Nat, crlfIndex text = some index ∧
      ∃ end_, walkArguments text 0 text.length
        (atoi (bytesFrom text 1)).toNat (index + 2) = some end_ := by
  rw [hasCompleteRespCommand] at accepted
  split_ifs at accepted with unbegun
  rw [findCrlf_start] at accepted
  cases found : crlfIndex text with
  | none =>
      rw [found] at accepted
      cases accepted
  | some index =>
      rw [found] at accepted
      obtain ⟨end_, walked, -⟩ := Option.map_eq_some_iff.mp accepted
      exact ⟨index, rfl, end_, walked⟩

/-- A buffer whose first line and arguments can be followed. -/
theorem followed_iff
    (text : Bytes) :
    followed text = true ↔
      text.length < 2 ^ 31 ∧
        ∃ index : Nat, crlfIndex text = some index ∧
          walkable text (atoi (bytesFrom text 1)).toNat (index + 2) =
            true := by
  rw [followed, Bool.and_eq_true, decide_eq_true_iff, findCrlf_start]
  cases crlfIndex text <;> simp

theorem ends_of_start
    {text : Bytes}
    {index : Nat}
    (found : crlfIndex text = some index) :
    Ends text ((index : Int) + 2 - 2) := by
  have ends := @ends_of_crlfIndex text 0 (le_refl 0) index found
  rwa [Int.add_sub_cancel, ← Int.zero_add (index : Int)]

/-! ## Buffers -/

/-- Some bytes behind the buffer complete a command that an `int` measures. -/
def Completable (text : Bytes) : Prop :=
  ∃ more length, (text ++ more).length < 2 ^ 31 ∧
    hasCompleteRespCommand (text ++ more) 0 (text ++ more).length =
      some length

theorem completable_of_walk
    {text : Bytes}
    (star : byteAt text 0 = 42)
    {more : Bytes}
    (int : (text ++ more).length < 2 ^ 31)
    (four : 4 ≤ (text ++ more).length)
    {index : Nat}
    (found : crlfIndex (text ++ more) = some index)
    {end_ : Int}
    (walked : walkArguments (text ++ more) 0 (text ++ more).length
      (atoi (bytesFrom (text ++ more) 1)).toNat (index + 2) = some end_) :
    Completable text := by
  have inside : (0 : Int) < text.length :=
    (byteAt_ne_zero_bounds (by rw [star]; decide)).2
  have begun : byteAt (text ++ more) 0 = 42 := by
    rw [byteAt_append_left inside, star]
  refine ⟨more, toInt32 (end_ - 0), int, ?_⟩
  rw [hasCompleteRespCommand_whole begun four found, walked]
  rfl

/-- A buffer that has been followed to its end is completed by some bytes. -/
theorem completable_of_followed
    {text : Bytes}
    (star : byteAt text 0 = 42)
    (follow : followed text = true) :
    Completable text := by
  obtain ⟨int, index, found, walk⟩ := (followed_iff text).mp follow
  have boundary := ends_of_start found
  obtain ⟨-, upper, carriage, -⟩ := id boundary
  have begun : index ≠ 0 := by
    rintro rfl
    rw [Nat.cast_zero, Int.zero_add, Int.sub_self, star] at carriage
    exact absurd carriage (by decide)
  obtain ⟨more, end_, foreign, room, walked⟩ :=
    walkArguments_walkable int boundary walk
  have number : ∀ {more : Bytes}, Foreign more →
      atoi (bytesFrom (text ++ more) 1) = atoi (bytesFrom text 1) := by
    intro more foreign
    rw [bytesFrom_append_left (by omega), foreign.atoi_append]
  by_cases four : 4 ≤ (text ++ more).length
  · refine completable_of_walk star room four (crlfIndex_append found more)
      (show _ = some end_ from ?_)
    rw [number foreign]
    exact walked
  · -- Only a star, CR and LF: no arguments, but the probe wants four bytes.
    have short : text.length + 1 < 2 ^ 31 := by
      rw [List.length_append] at four
      omega
    have none_ : (atoi (bytesFrom text 1)).toNat = 0 := by
      cases count : (atoi (bytesFrom text 1)).toNat with
      | zero => rfl
      | succ count =>
          rw [count] at walked
          have five := walkArguments_five room (by omega) walked
          omega
    have other : Foreign [36] := foreign_dollar (show Blank [] by decide) []
    refine @completable_of_walk text star [36] ?_ ?_ index
      (crlfIndex_append found _) _
      (show _ = some ((index : Int) + 2) from ?_)
    · rw [List.length_append]
      exact short
    · rw [List.length_append, List.length_singleton]
      omega
    · rw [number other, none_]
      rfl

/-- Bytes behind a buffer complete it when they do so in two pieces. -/
theorem Completable.of_append
    {text tail : Bytes}
    (completable : Completable (text ++ tail)) :
    Completable text := by
  obtain ⟨more, length, int, accepted⟩ := completable
  rw [List.append_assoc] at int accepted
  exact ⟨tail ++ more, length, int, accepted⟩

theorem completable_of_followable
    {text : Bytes}
    (star : byteAt text 0 = 42)
    (followable : Followable text) :
    Completable text := by
  obtain ⟨tail, -, follow⟩ := followable
  have begun : (0 : Int) < text.length :=
    (byteAt_ne_zero_bounds (by rw [star]; decide)).2
  exact (completable_of_followed
    ((byteAt_append_left begun tail).trans star) follow).of_append

/-- What completes a buffer shows how its end can be made up: the bytes of
numbers that it begins with are kept, and what is behind them is replaced. -/
theorem followable_of_completable
    {text : Bytes}
    (star : byteAt text 0 = 42)
    (completable : Completable text) :
    Followable text := by
  obtain ⟨more, length, int, accepted⟩ := completable
  generalize opened : text ++ more.takeWhile isNumeral = front
  generalize left : more.dropWhile isNumeral = rest
  have shape : text ++ more = front ++ rest := by
    rw [← opened, ← left, List.append_assoc, List.takeWhile_append_dropWhile]
  have foreign : Foreign rest := left ▸ foreign_dropWhile more
  have unjoined : rest.getD 0 0 ≠ 10 := by
    rw [← left]
    exact getD_dropWhile more
  obtain ⟨fill, blank, mirrors⟩ := exists_mirrors front unjoined foreign
  have begun : (0 : Int) < text.length :=
    (byteAt_ne_zero_bounds (by rw [star]; decide)).2
  have inside : (0 : Int) < front.length := by
    rw [← opened, List.length_append]
    omega
  have mark : byteAt front 0 = 42 := by
    rw [← opened, byteAt_append_left begun, star]
  rw [shape] at int accepted
  obtain ⟨index, found, end_, walked⟩ := walk_of_accepted accepted
  have line : crlfIndex (front ++ fill) = some index :=
    (mirrors.line_at (le_refl 0) inside (by rw [mark]; decide)).trans found
  refine ⟨more.takeWhile isNumeral ++ fill, ?_, ?_⟩
  · intro byte member
    rcases List.mem_append.mp member with here | there
    · exact List.mem_takeWhile_imp here
    · exact blank byte there
  · rw [← List.append_assoc, opened, followed_iff]
    refine ⟨?_, index, line, ?_⟩
    · have shorter := mirrors.shorter
      rw [List.length_append] at int ⊢
      omega
    · rw [bytesFrom_append_left (by omega), mirrors.foreign.1.atoi_append]
        at walked
      rw [bytesFrom_append_left (by omega), mirrors.foreign.2.atoi_append]
      exact mirrors.walkable int (ends_of_start line) walked

/-! ## Rejected buffers -/

/-- Whatever lies in the memory behind it, a buffer that the probe rejects can
still be completed, or the connection is told of an error. -/
def Settles (text : Bytes) : Prop :=
  ∀ stale, hasCompleteRespCommand (text ++ stale) 0 text.length = none →
    Completable text ∨
      ∀ (κ σ : Type) (layer : CommandLayer κ σ) (flags : Flags) (fd : Int)
        (session : Session σ),
        ∃ fuel result,
          protocolProcessStream layer flags fd fuel (text ++ stale) 0
              text.length session = some result ∧
            result.status < 0

/-- A buffer that begins with a star is never reported. -/
theorem status_nonnegative
    {κ σ : Type}
    {layer : CommandLayer κ σ}
    {flags : Flags}
    {fd : Int}
    {fuel : Nat}
    {mem : Bytes}
    {inLen : Int}
    {session : Session σ}
    {result : StreamResult σ}
    (star : byteAt mem 0 = 42)
    (ended : protocolProcessStream layer flags fd fuel mem 0 inLen session =
      some result) :
    result.status = 0 := by
  rw [protocolProcessStream] at ended
  split_ifs at ended with empty other
  · cases ended
    rfl
  · exact absurd star other
  · obtain ⟨final, -, rfl⟩ := Option.map_eq_some_iff.mp ended
    rfl

/-- A buffer that nothing completes is rejected for ever and never
reported. -/
theorem completable_of_settles
    {text : Bytes}
    (star : byteAt text 0 = 42)
    (int : text.length < 2 ^ 31)
    (settles : Settles text) :
    Completable text := by
  cases probe : hasCompleteRespCommand (text ++ []) 0 text.length with
  | some length =>
      rw [List.append_nil] at probe
      refine ⟨[], length, ?_, ?_⟩
      · rw [List.append_nil]
        exact int
      · rw [List.append_nil]
        exact probe
  | none =>
      rcases settles [] probe with completable | reported
      · exact completable
      · obtain ⟨fuel, result, ended, negative⟩ := reported Unit Unit emptyLayer
          { enablePersistence := false
            enableTtl := false
            enableReplMaster := false
            enableReplSlave := false
            useTcpSync := false } 0
          { globals :=
              { store := (), persisted := [], repl := ReplState.initial }
            wbuf := none
            executed := [] }
        rw [List.append_nil] at ended
        rw [status_nonnegative star ended] at negative
        exact absurd negative (by decide)

/--
A buffer that the probe rejects is completed by some bytes or reported exactly
when it can be followed to its end.
-/
theorem rejected_settles
    (text : Bytes)
    (star : byteAt text 0 = 42)
    (int : text.length < 2 ^ 31) :
    Settles text ↔ Followable text :=
  ⟨fun settles =>
    followable_of_completable star (completable_of_settles star int settles),
    fun followable _ _ => Or.inl (completable_of_followable star followable)⟩

/-- A header and the beginning of an argument; and a length that the next
digit makes negative. -/
theorem rejected_settles_torn :
    Settles (ascii "*1\r\n$4\r\nPI") ∧ Settles (ascii "*1\r\n$2147483647") :=
  ⟨(rejected_settles _ (by decide) (by decide)).mpr
      ⟨[], List.forall_mem_nil _, by decide +kernel⟩,
    (rejected_settles _ (by decide) (by decide)).mpr
      ⟨ascii "8\r\n", List.all_eq_true.mp (by decide), by decide +kernel⟩⟩

/-- An argument that does not begin with a dollar sign: the probe answers as
if bytes were missing, but none can be added. -/
theorem rejected_forever :
    byteAt (ascii "*1\r\nX") 0 = 42 ∧
      hasCompleteRespCommand (ascii "*1\r\nX") 0 5 = none ∧
      ¬ Settles (ascii "*1\r\nX") := by
  have star : byteAt (ascii "*1\r\nX") 0 = 42 := by decide
  refine ⟨star, by decide, fun settles => ?_⟩
  obtain ⟨more, length, int, accepted⟩ :=
    completable_of_settles star (by decide) settles
  obtain ⟨index, found, end_, walked⟩ := walk_of_accepted accepted
  have line : crlfIndex (ascii "*1\r\nX" ++ more) = some 2 :=
    crlfIndex_append (by decide) more
  obtain rfl : index = 2 := Option.some.inj (found.symm.trans line)
  have foreign : Foreign (88 :: more) := by
    intro byte member
    obtain rfl : (88 : UInt8) = byte := Option.some.inj member
    rfl
  have number : atoi (bytesFrom (ascii "*1\r\nX" ++ more) 1) = 1 := by
    rw [bytesFrom_append_left (by decide)]
    exact (foreign.atoi_append (ascii "1\r\n")).trans (by decide)
  rw [number] at walked
  obtain ⟨-, mark, -⟩ := walkArguments_round int (by decide) walked
  rw [byteAt_append_left (by decide)] at mark
  exact absurd mark (by decide)

end Kivo.Resp.Rejection
