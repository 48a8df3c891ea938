import Kivo.Resp.Frame

/-!
# The walkers on canonical frames

A canonical frame followed by arbitrary bytes is accepted with its exact
length, its arguments are found where they were written, and no proper prefix
of it is accepted.  The memory around the window is arbitrary in all three
statements: bytes of earlier commands in front of it, and later or stale bytes
behind it.

The proofs follow the layout.  One bulk string moves either walker from its
`$` to the byte behind its CR LF; a window that ends inside a bulk string
stops the probe at the header line or at the declared length.
-/

namespace Kivo.Resp.Canonical

open Kivo.Clib.Memory
open Kivo.Clib.Numeral
open Kivo.Resp.Frame

/-! ## Lengths and shapes -/

theorem respBulk_length (arg : Bytes) :
    (respBulk arg).length = 1 + (decimal arg.length).length + 2 +
      arg.length + 2 := by
  simp [respBulk]
  omega

theorem respBulks_cons (arg : Bytes) (args : List Bytes) :
    respBulks (arg :: args) = respBulk arg ++ respBulks args := by
  simp [respBulks]

theorem respHeader_length (count : Nat) :
    (respHeader count).length = 1 + (decimal count).length + 2 := by
  simp [respHeader]
  omega

theorem respEncode_length_ge (args : List Bytes) :
    4 ≤ (respEncode args).length := by
  have positive := decimal_length_pos args.length
  rw [respEncode, List.length_append, respHeader_length]
  omega

theorem length_le_respBulks (args : List Bytes) :
    args.length ≤ (respBulks args).length := by
  induction args with
  | nil => simp
  | cons arg args induction =>
      rw [respBulks_cons, List.length_append, List.length_cons,
        respBulk_length]
      omega

/-- An argument is shorter than its frame. -/
theorem arg_length_lt (args : List Bytes) (index : Nat) :
    (args.getD index []).length < (respEncode args).length := by
  have inside : (args.getD index []).length ≤ (respBulks args).length := by
    induction args generalizing index with
    | nil => simp
    | cons arg rest induction =>
        rw [respBulks_cons, List.length_append, respBulk_length]
        cases index with
        | zero =>
            rw [List.getD_cons_zero]
            omega
        | succ index =>
            have later := induction index
            rw [List.getD_cons_succ]
            omega
  rw [respEncode, List.length_append, respHeader_length]
  omega

/-- The bulk string split at the end of its header line. -/
theorem respBulk_eq_line (arg rest : Bytes) :
    respBulk arg ++ rest =
      (36 :: decimal arg.length) ++ 13 :: 10 :: (arg ++ [13, 10] ++ rest) := by
  simp [respBulk]

/-- The header split at the end of its line. -/
theorem respHeader_eq_line (count : Nat) (rest : Bytes) :
    respHeader count ++ rest =
      (42 :: decimal count) ++ 13 :: 10 :: rest := by
  simp [respHeader]

theorem cr_not_mem_line (mark : UInt8) (other : mark ≠ 13) (number : Nat) :
    (13 : UInt8) ∉ mark :: decimal number := by
  intro member
  rcases List.mem_cons.mp member with equal | member
  · exact other equal.symm
  · exact cr_not_mem_decimal number member

/-! ## One header line -/

/-- A header line with its CR LF inside the window is found and read. -/
theorem headerLine_read {mem : Bytes} {address : Int} {mark : UInt8}
    {number : Nat} {rest : Bytes} (other : mark ≠ 13)
    (small : number < 2 ^ 31)
    (stored : Holds mem address
      ((mark :: decimal number) ++ 13 :: 10 :: rest)) :
    findCrlf mem address
        ((mark :: decimal number) ++ 13 :: 10 :: rest).length =
        some (address + (1 + (decimal number).length : Nat)) ∧
      atoi (bytesFrom mem (address + 1)) = number := by
  constructor
  · rw [findCrlf_of_holds stored,
      crlfIndex_line (cr_not_mem_line mark other number)]
    simp [add_comm]
  · rw [List.cons_append] at stored
    obtain ⟨-, -, behind, shape⟩ := stored.cons
    rw [← shape, List.append_assoc]
    exact atoi_decimal small (digitFree_crlf _)

/-- A window that stops before the LF of a header line has no CR LF. -/
theorem headerLine_torn {mem : Bytes} {address : Int} {mark : UInt8}
    {number : Nat} {short : Bytes} (other : mark ≠ 13)
    (initial : short <+: (mark :: decimal number) ++ [13])
    (stored : Holds mem address short) :
    findCrlf mem address short.length = none := by
  rw [findCrlf_of_holds stored,
    crlfIndex_partial (cr_not_mem_line mark other number) initial]
  rfl

/-- Where a prefix of a terminated line ends. -/
theorem prefix_line_cases {line rest short : Bytes}
    (initial : short <+: line ++ 13 :: 10 :: rest) :
    short <+: line ++ [13] ∨
      ∃ tail, short = line ++ 13 :: 10 :: tail ∧ tail <+: rest := by
  have whole : line ++ 13 :: 10 :: rest = (line ++ [13]) ++ 10 :: rest := by
    simp
  rw [whole] at initial
  rcases List.prefix_or_prefix_of_prefix initial
      (List.prefix_append _ _) with shorter | longer
  · exact Or.inl shorter
  · obtain ⟨tail, rfl⟩ := longer
    rw [List.prefix_append_right_inj] at initial
    rcases tail with _ | ⟨next, tail⟩
    · exact Or.inl (by simp)
    · rw [List.cons_prefix_cons] at initial
      obtain ⟨rfl, initial⟩ := initial
      exact Or.inr ⟨tail, by simp, initial⟩

/-! ## One bulk string -/

section Window

variable {mem : Bytes} {buf bufLen p : Int}

/-- The probe passes one bulk string that lies in its window. -/
theorem walkArguments_bulk {arg rest : Bytes} {count : Nat}
    (stored : Holds mem p (respBulk arg ++ rest))
    (inside : buf ≤ p)
    (window : p - buf + ((respBulk arg ++ rest).length : Int) = bufLen)
    (small : bufLen < 2 ^ 31) :
    walkArguments mem buf bufLen (count + 1) p =
      walkArguments mem buf bufLen count (p + (respBulk arg).length) := by
  have bulkLength := respBulk_length arg
  have windowLength : bufLen - (p - buf) =
      (((36 :: decimal arg.length) ++
        13 :: 10 :: (arg ++ [13, 10] ++ rest)).length : Nat) := by
    rw [← respBulk_eq_line]
    omega
  have argSmall : arg.length < 2 ^ 31 := by
    rw [List.length_append] at window
    omega
  have lineStored := stored
  rw [respBulk_eq_line] at lineStored
  obtain ⟨found, number⟩ :=
    headerLine_read (by decide) argSmall lineStored
  have mark : byteAt mem p = 36 := by
    rw [List.cons_append] at lineStored
    exact lineStored.cons.1
  have dataStored : Holds mem
      (p + (1 + (decimal arg.length).length : Nat) + 2)
      (arg ++ [13, 10] ++ rest) := by
    have split : (36 :: decimal arg.length) ++
        13 :: 10 :: (arg ++ [13, 10] ++ rest) =
        ((36 :: decimal arg.length) ++ [13, 10]) ++
          (arg ++ [13, 10] ++ rest) := by simp
    rw [split] at lineStored
    have behind := lineStored.right
    convert behind using 1
    simp
    ring
  have terminator := (Holds.left dataStored).right
  obtain ⟨carriage, feedStored⟩ := terminator.cons
  obtain ⟨feed, -⟩ := feedStored.cons
  have notOutside : ¬ (p - buf ≥ bufLen ∨ byteAt mem p ≠ 36) := by
    rw [List.length_append] at window
    exact not_or.mpr ⟨by omega, not_not.mpr mark⟩
  have fits : ¬ (p + (1 + (decimal arg.length).length : Nat) + 2 - buf +
      (arg.length : Int) + 2 > bufLen) := by
    rw [List.length_append] at window
    omega
  have inRange : toInt32 (bufLen - (p - buf)) = bufLen - (p - buf) :=
    toInt32_of_range (by rw [List.length_append] at window; omega) (by omega)
  rw [walkArguments, if_neg notOutside, inRange, windowLength, found]
  simp only [number]
  rw [if_neg fits, if_neg (by rw [carriage, feed]; simp)]
  congr 1
  omega

/-- The second walker records one bulk string and passes it. -/
theorem unpackArguments_bulk {arg rest : Bytes} {count : Nat}
    (stored : Holds mem p (respBulk arg ++ rest))
    (inside : buf ≤ p)
    (window : p - buf + ((respBulk arg ++ rest).length : Int) = bufLen)
    (small : bufLen < 2 ^ 31) :
    unpackArguments mem buf bufLen (count + 1) p =
      let rest := unpackArguments mem buf bufLen count
        (p + (respBulk arg).length)
      ((p + (1 + (decimal arg.length).length + 2 : Nat),
        (arg.length : Int)) :: rest.1, rest.2) := by
  have bulkLength := respBulk_length arg
  have windowLength : bufLen - (p - buf) =
      (((36 :: decimal arg.length) ++
        13 :: 10 :: (arg ++ [13, 10] ++ rest)).length : Nat) := by
    rw [← respBulk_eq_line]
    omega
  have argSmall : arg.length < 2 ^ 31 := by
    rw [List.length_append] at window
    omega
  have lineStored := stored
  rw [respBulk_eq_line] at lineStored
  obtain ⟨found, number⟩ :=
    headerLine_read (by decide) argSmall lineStored
  have inRange : toInt32 (bufLen - (p - buf)) = bufLen - (p - buf) :=
    toInt32_of_range (by rw [List.length_append] at window; omega) (by omega)
  rw [unpackArguments, inRange, windowLength, found]
  simp only [number]
  have next : p + (1 + (decimal arg.length).length : Nat) + 2 +
      (arg.length : Int) + 2 = p + (respBulk arg).length := by omega
  have data : p + (1 + (decimal arg.length).length : Nat) + 2 =
      p + (1 + (decimal arg.length).length + 2 : Nat) := by omega
  rw [next, data]

/-- The probe stops at a bulk string that its window cuts short. -/
theorem walkArguments_bulk_torn {arg short : Bytes} {count : Nat}
    (stored : Holds mem p short)
    (inside : buf ≤ p)
    (initial : short <+: respBulk arg)
    (proper : short.length < (respBulk arg).length)
    (window : p - buf + (short.length : Int) = bufLen)
    (small : bufLen < 2 ^ 31) (argSmall : arg.length < 2 ^ 31) :
    walkArguments mem buf bufLen (count + 1) p = none := by
  have bulkLength := respBulk_length arg
  by_cases stops : p - buf ≥ bufLen ∨ byteAt mem p ≠ 36
  · rw [walkArguments, if_pos stops]
  · have inRange : toInt32 (bufLen - (p - buf)) = (short.length : Nat) := by
      rw [toInt32_of_range (by omega) (by omega)]
      omega
    have shape := respBulk_eq_line arg []
    rw [List.append_nil] at shape
    rw [shape] at initial
    rw [walkArguments, if_neg stops, inRange]
    rcases prefix_line_cases initial with header | ⟨tail, rfl, tailInitial⟩
    · rw [headerLine_torn (by decide) header stored]
    · obtain ⟨found, number⟩ :=
        headerLine_read (by decide) argSmall stored
      rw [found]
      simp only [number]
      rw [if_pos]
      simp only [List.length_append, List.length_cons] at window proper
      omega

/-! ## A list of bulk strings -/

/-- The probe passes all bulk strings of an argument list. -/
theorem walkArguments_bulks {args : List Bytes} {rest : Bytes}
    (stored : Holds mem p (respBulks args ++ rest))
    (inside : buf ≤ p)
    (window : p - buf + ((respBulks args ++ rest).length : Int) = bufLen)
    (small : bufLen < 2 ^ 31) :
    walkArguments mem buf bufLen args.length p =
      some (p + (respBulks args).length) := by
  induction args generalizing p with
  | nil => simp [walkArguments, respBulks]
  | cons arg args induction =>
      rw [respBulks_cons, List.append_assoc] at stored window
      rw [List.length_cons, walkArguments_bulk stored inside window small]
      rw [induction stored.right (by omega)
        (by rw [List.length_append] at window; omega)]
      rw [respBulks_cons, List.length_append]
      congr 1
      push_cast
      ring

/-- Where the arguments of consecutive bulk strings lie. -/
def layout : Int → List Bytes → List (Int × Int)
  | _, [] => []
  | p, arg :: args =>
      (p + (1 + (decimal arg.length).length + 2 : Nat), (arg.length : Int)) ::
        layout (p + (respBulk arg).length) args

/-- The second walker records the layout of all bulk strings. -/
theorem unpackArguments_bulks {args : List Bytes} {rest : Bytes}
    (stored : Holds mem p (respBulks args ++ rest))
    (inside : buf ≤ p)
    (window : p - buf + ((respBulks args ++ rest).length : Int) = bufLen)
    (small : bufLen < 2 ^ 31) :
    unpackArguments mem buf bufLen args.length p = (layout p args, true) := by
  induction args generalizing p with
  | nil => rfl
  | cons arg args induction =>
      rw [respBulks_cons, List.append_assoc] at stored window
      rw [List.length_cons, unpackArguments_bulk stored inside window small]
      rw [induction stored.right (by omega)
        (by rw [List.length_append] at window; omega)]
      rfl

/-- The probe stops in a list of bulk strings that its window cuts short. -/
theorem walkArguments_bulks_torn {args : List Bytes} {short : Bytes}
    (stored : Holds mem p short)
    (inside : buf ≤ p)
    (initial : short <+: respBulks args)
    (proper : short ≠ respBulks args)
    (window : p - buf + (short.length : Int) = bufLen)
    (small : bufLen < 2 ^ 31)
    (argsSmall : ∀ arg ∈ args, arg.length < 2 ^ 31) :
    walkArguments mem buf bufLen args.length p = none := by
  induction args generalizing p short with
  | nil =>
      exact absurd (List.prefix_nil.mp initial) proper
  | cons arg args induction =>
      rw [respBulks_cons] at initial proper
      rw [List.length_cons]
      by_cases within : short.length < (respBulk arg).length
      · have firstInitial : short <+: respBulk arg :=
          List.prefix_of_prefix_length_le initial
            (List.prefix_append _ _) within.le
        exact walkArguments_bulk_torn stored inside firstInitial within
          window small (argsSmall arg (by simp))
      · obtain ⟨tail, rfl⟩ : respBulk arg <+: short :=
          List.prefix_of_prefix_length_le
            (List.prefix_append _ _) initial (by omega)
        rw [List.prefix_append_right_inj] at initial
        rw [walkArguments_bulk stored inside window small]
        exact induction stored.right (by omega) initial
          (fun equal => proper (by rw [equal]))
          (by rw [List.length_append] at window; omega)
          (fun other member => argsSmall other (by simp [member]))

end Window

/-! ## Whole frames -/

/-- The argument slices recorded by a layout are the encoded arguments. -/
theorem layout_slices {mem : Bytes} {p : Int} {args : List Bytes}
    (stored : Holds mem p (respBulks args)) :
    List.zipWith (slice mem)
        ((layout p args).map Prod.fst) ((layout p args).map Prod.snd) =
      args := by
  induction args generalizing p with
  | nil => rfl
  | cons arg args induction =>
      rw [respBulks_cons] at stored
      have first := stored.left
      have split : respBulk arg =
          (36 :: (decimal arg.length ++ [13, 10])) ++ (arg ++ [13, 10]) := by
        simp [respBulk]
      rw [split] at first
      have data := first.right.left.slice
      have address : p + ((36 :: (decimal arg.length ++ [13, 10])).length : Nat)
          = p + (1 + (decimal arg.length).length + 2 : Nat) := by
        simp
        ring
      rw [address] at data
      simp only [layout, List.map_cons, List.zipWith_cons_cons, data]
      rw [induction stored.right]

theorem layout_length (p : Int) (args : List Bytes) :
    (layout p args).length = args.length := by
  induction args generalizing p with
  | nil => rfl
  | cons arg args induction => simp [layout, induction]

/-- The recorded lengths are those of byte strings. -/
theorem layout_nonneg (p : Int) (args : List Bytes) (index : Nat) :
    0 ≤ ((layout p args).map Prod.snd).getD index 0 := by
  induction args generalizing p index with
  | nil => exact le_refl _
  | cons arg args induction =>
      cases index with
      | zero => exact Int.natCast_nonneg _
      | succ index => exact induction _ index

section Frame

variable {mem : Bytes} {buf : Int} {args : List Bytes}

/-- A canonical frame followed by any bytes of the window is accepted. -/
theorem hasCompleteRespCommand_encode {rest : Bytes}
    (stored : Holds mem buf (respEncode args ++ rest))
    (small : (respEncode args ++ rest).length < 2 ^ 31) :
    hasCompleteRespCommand mem buf (respEncode args ++ rest).length =
      some ((respEncode args).length : Int) := by
  have minimum := respEncode_length_ge args
  have countSmall : args.length < 2 ^ 31 := by
    have bound := length_le_respBulks args
    rw [respEncode, List.length_append, List.length_append] at small
    omega
  have lineStored := stored
  have shape : respEncode args ++ rest =
      (42 :: decimal args.length) ++ 13 :: 10 :: (respBulks args ++ rest) := by
    rw [respEncode, List.append_assoc, respHeader_eq_line]
  rw [shape] at lineStored
  obtain ⟨found, number⟩ :=
    headerLine_read (by decide) countSmall lineStored
  have mark : byteAt mem buf = 42 := by
    rw [List.cons_append] at lineStored
    exact lineStored.cons.1
  have notShort : ¬ (((respEncode args ++ rest).length : Int) < 4 ∨
      byteAt mem buf ≠ 42) := by
    rw [List.length_append]
    exact not_or.mpr ⟨by omega, not_not.mpr mark⟩
  have headerLength := respHeader_length args.length
  have bulksStored : Holds mem (buf + (respHeader args.length).length)
      (respBulks args ++ rest) := by
    rw [respEncode, List.append_assoc] at stored
    exact stored.right
  have walked : walkArguments mem buf (respEncode args ++ rest).length
      args.length (buf + (respHeader args.length).length) =
      some (buf + (respHeader args.length).length +
        (respBulks args).length) := by
    apply walkArguments_bulks bulksStored (by omega) _ (by exact_mod_cast small)
    simp only [respEncode, List.length_append]
    push_cast
    ring
  have start : buf + (1 + (decimal args.length).length : Nat) + 2 =
      buf + (respHeader args.length).length := by
    rw [headerLength]
    push_cast
    ring
  rw [hasCompleteRespCommand, if_neg notShort]
  rw [shape, found, ← shape]
  simp only [number, Int.toNat_natCast, start, walked, Option.map_some]
  have total : buf + ((respHeader args.length).length : Int) +
      (respBulks args).length - buf = (respEncode args).length := by
    rw [respEncode, List.length_append]
    push_cast
    ring
  rw [total, toInt32_of_range (by omega)
    (by rw [List.length_append] at small; omega)]

/-- No proper prefix of a canonical frame is accepted. -/
theorem hasCompleteRespCommand_torn {short : Bytes}
    (stored : Holds mem buf short)
    (initial : short <+: respEncode args)
    (proper : short ≠ respEncode args)
    (small : (respEncode args).length < 2 ^ 31) :
    hasCompleteRespCommand mem buf short.length = none := by
  have shorter := initial.length_le
  have bound := length_le_respBulks args
  have encodeLength : (respEncode args).length =
      (respHeader args.length).length + (respBulks args).length := by
    rw [respEncode, List.length_append]
  have argSmall : ∀ arg ∈ args, arg.length < 2 ^ 31 := by
    intro arg member
    have part : (respBulk arg).length ≤ (respBulks args).length :=
      List.Sublist.length_le
        (List.sublist_flatten_of_mem (List.mem_map_of_mem member))
    rw [respBulk_length] at part
    omega
  rw [hasCompleteRespCommand]
  by_cases stops : ((short.length : Int) < 4 ∨ byteAt mem buf ≠ 42)
  · rw [if_pos stops]
  · rw [if_neg stops]
    have shape : respEncode args =
        (42 :: decimal args.length) ++ 13 :: 10 :: respBulks args := by
      rw [respEncode, respHeader_eq_line]
    have lineInitial := initial
    rw [shape] at lineInitial
    rcases prefix_line_cases lineInitial with header | ⟨tail, rfl, tailInitial⟩
    · rw [headerLine_torn (by decide) header stored]
    · obtain ⟨found, number⟩ :=
        headerLine_read (by decide) (by omega) stored
      rw [found]
      simp only [number, Int.toNat_natCast]
      have start : buf + (1 + (decimal args.length).length : Nat) + 2 =
          buf + (respHeader args.length).length := by
        rw [respHeader_length]
        push_cast
        ring
      have tailStored : Holds mem (buf + (respHeader args.length).length)
          tail := by
        rw [← respHeader_eq_line] at stored
        exact stored.right
      have different : tail ≠ respBulks args := by
        rintro rfl
        exact proper shape.symm
      rw [start, walkArguments_bulks_torn tailStored (by omega) tailInitial
        different _ (by omega) argSmall]
      · rfl
      · rw [respHeader_length]
        simp
        ring

/-- Both argument arrays of an unpacked canonical frame. -/
theorem respUnpackNoModify_encode
    (stored : Holds mem buf (respEncode args))
    (small : (respEncode args).length < 2 ^ 31) :
    respUnpackNoModify mem buf (respEncode args).length =
      { argc := args.length
        argv := (layout (buf + (respHeader args.length).length) args).map
          Prod.fst
        argvLen := (layout (buf + (respHeader args.length).length) args).map
          Prod.snd
        isDynamic := decide (16 < args.length) } := by
  have countSmall : args.length < 2 ^ 31 := by
    have bound := length_le_respBulks args
    rw [respEncode, List.length_append] at small
    omega
  have shape : respEncode args =
      (42 :: decimal args.length) ++ 13 :: 10 :: respBulks args := by
    rw [respEncode, respHeader_eq_line]
  have lineStored := stored
  rw [shape] at lineStored
  obtain ⟨found, number⟩ :=
    headerLine_read (by decide) countSmall lineStored
  have bulksStored : Holds mem (buf + (respHeader args.length).length)
      (respBulks args ++ []) := by
    rw [List.append_nil]
    rw [respEncode] at stored
    exact stored.right
  have unpacked : unpackArguments mem buf (respEncode args).length
      args.length (buf + (respHeader args.length).length) =
      (layout (buf + (respHeader args.length).length) args, true) := by
    apply unpackArguments_bulks bulksStored (by omega) _
      (by exact_mod_cast small)
    rw [List.append_nil, respEncode, List.length_append]
    push_cast
    ring
  have start : buf + (1 + (decimal args.length).length : Nat) + 2 =
      buf + (respHeader args.length).length := by
    rw [respHeader_length]
    push_cast
    ring
  rw [respUnpackNoModify, shape, found, ← shape]
  simp only [number, Int.toNat_natCast, start, unpacked, if_true,
    respStaticArgc, RespRequest.mk.injEq, true_and, decide_eq_decide]
  omega

/-- The argument slices of an unpacked canonical frame are its arguments. -/
theorem respUnpackNoModify_args
    (stored : Holds mem buf (respEncode args))
    (small : (respEncode args).length < 2 ^ 31) :
    (respUnpackNoModify mem buf (respEncode args).length).args mem = args := by
  rw [respUnpackNoModify_encode stored small, RespRequest.args]
  apply layout_slices
  rw [respEncode] at stored
  exact stored.right

end Frame

/-! ## The round trip -/

/-- The frame of an internal deletion is the canonical one. -/
theorem internalDelFrame_eq {cmd : Bytes} (nulFree : (0 : UInt8) ∉ cmd)
    (key : Bytes) :
    internalDelFrame cmd key = respEncode [cmd, key] := by
  have two : decimal 2 = [50] := by decide
  have opening : ascii "*2\r\n$" = [42, 50, 13, 10, 36] := by decide
  have closing : ascii "\r\n" = [13, 10] := by decide
  have middle : ascii "\r\n$" = [13, 10, 36] := by decide
  simp [internalDelFrame, cString_of_nulFree nulFree, respEncode, respHeader,
    respBulks, respBulk, two, opening, closing, middle]

/--
Encoding and the two walkers.  A canonical frame is accepted with its exact
length whatever stands before and behind it; both argument arrays, embedded
or allocated, delimit exactly the encoded arguments; a window that ends inside
the frame is never accepted; and the hand-written encoder of internal
deletions produces the canonical frame.
-/
theorem respEncode_roundTrip
    (args : List Bytes) (suffix : Bytes)
    (small : (respEncode args ++ suffix).length < 2 ^ 31) :
    (∀ before after : Bytes,
      let mem := before ++ ((respEncode args ++ suffix) ++ after)
      let length : Int := (respEncode args).length
      let req := respUnpackNoModify mem before.length length
      hasCompleteRespCommand mem before.length
          (respEncode args ++ suffix).length = some length ∧
        req.argc = args.length ∧
        req.argv.length = args.length ∧
        req.argvLen.length = args.length ∧
        req.args mem = args ∧
        (req.isDynamic = true ↔ 16 < args.length)) ∧
      (∀ before short after : Bytes,
        short <+: respEncode args → short ≠ respEncode args →
          hasCompleteRespCommand (before ++ (short ++ after))
            before.length short.length = none) ∧
      (∀ cmd key : Bytes, (0 : UInt8) ∉ cmd →
        internalDelFrame cmd key = respEncode [cmd, key]) := by
  have frameSmall : (respEncode args).length < 2 ^ 31 := by
    rw [List.length_append] at small
    omega
  refine ⟨?_, ?_, ?_⟩
  · intro before after mem length req
    have stored : Holds mem before.length (respEncode args ++ suffix) :=
      Holds.of_append before (respEncode args ++ suffix) after
    have unpacked := respUnpackNoModify_encode stored.left frameSmall
    refine ⟨hasCompleteRespCommand_encode stored small, ?_, ?_, ?_,
      respUnpackNoModify_args stored.left frameSmall, ?_⟩
    · simp [req, length, unpacked]
    · simp [req, length, unpacked, layout_length]
    · simp [req, length, unpacked, layout_length]
    · simp [req, length, unpacked]
  · intro before short after initial proper
    exact hasCompleteRespCommand_torn
      (Holds.of_append before short after) initial proper frameSmall
  · intro cmd key nulFree
    exact internalDelFrame_eq nulFree key

/-- A payload with a fake header, CR LF and NUL bytes, and a suffix. -/
theorem respEncode_roundTrip_binary :
    let args : List Bytes := [ascii "SET", [42, 49, 13, 10, 0], []]
    let mem := ascii "x\r\n" ++ ((respEncode args ++ ascii "*1") ++ [])
    hasCompleteRespCommand mem 3 (respEncode args ++ ascii "*1").length =
        some ((respEncode args).length : Int) ∧
      (respUnpackNoModify mem 3 (respEncode args).length).args mem = args := by
  have trip := (respEncode_roundTrip
    [ascii "SET", [42, 49, 13, 10, 0], []] (ascii "*1") (by decide)).1
      (ascii "x\r\n") []
  exact ⟨trip.1, trip.2.2.2.2.1⟩

end Kivo.Resp.Canonical
