import Kivo.Clib.Numeral

/-!
# The two frame walkers of the protocol layer

`has_complete_resp_command` decides whether a receive window starts with a
complete request and how long it is; `resp_unpack_no_modify` then walks the
same bytes a second time and records where every argument lies.  Both are
translated here with raw addresses: a window is an address in a memory and a
length, the lengths read from `$` headers are signed, and the cursor moves by
them without further checks.

The canonical encoding of a list of byte strings is the specification against
which the walkers are read.
-/

namespace Kivo.Resp.Frame

open Kivo.Clib.Memory
open Kivo.Clib.Numeral

/-! ## Finding the end of a header line -/

/-- The loop of `find_crlf` over the remaining candidate positions. -/
def findCrlfFrom (mem : Bytes) : Nat → Int → Option Int
  | 0, _ => none
  | count + 1, p =>
      if byteAt mem p = 13 ∧ byteAt mem (p + 1) = 10 then some p
      else findCrlfFrom mem count (p + 1)

/-- `find_crlf`: the first CR LF inside the `len` bytes at `buf`. -/
def findCrlf (mem : Bytes) (buf len : Int) : Option Int :=
  findCrlfFrom mem (len - 1).toNat buf

/-! ## The completeness probe -/

/-- The argument loop of `has_complete_resp_command`. -/
def walkArguments (mem : Bytes) (buf bufLen : Int) : Nat → Int → Option Int
  | 0, p => some p
  | count + 1, p =>
      if p - buf ≥ bufLen ∨ byteAt mem p ≠ 36 then none
      else
        match findCrlf mem p (toInt32 (bufLen - (p - buf))) with
        | none => none
        | some crlf =>
            let argLen := atoi (bytesFrom mem (p + 1))
            let data := crlf + 2
            if data - buf + argLen + 2 > bufLen then none
            else if byteAt mem (data + argLen) ≠ 13 ∨
                byteAt mem (data + argLen + 1) ≠ 10 then none
            else walkArguments mem buf bufLen count (data + argLen + 2)

/--
`has_complete_resp_command`: `none` is the return value 0, `some length` the
return value 1 with `*out_cmd_len = length`.
-/
def hasCompleteRespCommand (mem : Bytes) (buf bufLen : Int) : Option Int :=
  if bufLen < 4 ∨ byteAt mem buf ≠ 42 then none
  else
    match findCrlf mem buf bufLen with
    | none => none
    | some crlf =>
        let argc := atoi (bytesFrom mem (buf + 1))
        (walkArguments mem buf bufLen argc.toNat (crlf + 2)).map
          (fun p => toInt32 (p - buf))

/-! ## Unpacking without copying -/

/-- Arguments that fit the arrays embedded in `resp_request_t`. -/
def respStaticArgc : Int := 16

/--
`resp_request_t`.  The pointer and length arrays hold the entries that were
filled; `isDynamic` tells whether they were allocated or embedded.
-/
structure RespRequest where
  argc : Int
  argv : List Int
  argvLen : List Int
  isDynamic : Bool
deriving DecidableEq, Repr

/--
The argument loop of `resp_unpack_no_modify`: the filled `(argv, argv_len)`
entries, and whether the loop ran to its end.
-/
def unpackArguments (mem : Bytes) (reqBuf bufLen : Int) :
    Nat → Int → List (Int × Int) × Bool
  | 0, _ => ([], true)
  | count + 1, p =>
      match findCrlf mem p (toInt32 (bufLen - (p - reqBuf))) with
      | none => ([], false)
      | some crlf =>
          let argLen := atoi (bytesFrom mem (p + 1))
          let data := crlf + 2
          let rest :=
            unpackArguments mem reqBuf bufLen count (data + argLen + 2)
          ((data, argLen) :: rest.1, rest.2)

/-- `resp_unpack_no_modify` on the window of `bufLen` bytes at `reqBuf`. -/
def respUnpackNoModify (mem : Bytes) (reqBuf bufLen : Int) : RespRequest :=
  match findCrlf mem reqBuf bufLen with
  | none => { argc := 0, argv := [], argvLen := [], isDynamic := false }
  | some crlf =>
      let argc := atoi (bytesFrom mem (reqBuf + 1))
      let filled :=
        unpackArguments mem reqBuf bufLen argc.toNat (crlf + 2)
      { argc := if filled.2 then argc else filled.1.length
        argv := filled.1.map Prod.fst
        argvLen := filled.1.map Prod.snd
        isDynamic := decide (respStaticArgc < argc) }

/-- The bytes `argv[i][0 .. argv_len[i])` of a request. -/
def RespRequest.arg (mem : Bytes) (req : RespRequest) (index : Nat) : Bytes :=
  slice mem (req.argv.getD index 0) (req.argvLen.getD index 0)

/-- All argument slices of a request. -/
def RespRequest.args (mem : Bytes) (req : RespRequest) : List Bytes :=
  List.zipWith (slice mem) req.argv req.argvLen

/-! ## The canonical encoding -/

/-- One bulk string. -/
def respBulk (arg : Bytes) : Bytes :=
  36 :: (decimal arg.length ++ (13 :: 10 :: (arg ++ [13, 10])))

/-- The bulk strings of an argument list, one behind the other. -/
def respBulks (args : List Bytes) : Bytes :=
  (args.map respBulk).flatten

/-- The header line `*count`. -/
def respHeader (count : Nat) : Bytes :=
  42 :: (decimal count ++ [13, 10])

/-- The canonical RESP array of bulk strings. -/
def respEncode (args : List Bytes) : Bytes :=
  respHeader args.length ++ respBulks args

/-! ## The hand-written encoder -/

/--
The buffer `protocol_handle_internal_del` fills: the `sprintf` of the format
`*2 $%d %s $%d` with its CR LFs, the key, and the closing CR LF.
-/
def internalDelFrame (cmd key : Bytes) : Bytes :=
  let cmdText := cString cmd
  ascii "*2\r\n$" ++ decimal cmdText.length ++ ascii "\r\n" ++ cmdText ++
    ascii "\r\n$" ++ decimal key.length ++ ascii "\r\n" ++
    (key ++ ascii "\r\n")

/-! ## Windows as texts -/

/-- Index of the first CR LF of a text. -/
def crlfIndex : Bytes → Option Nat
  | [] => none
  | [_] => none
  | first :: second :: rest =>
      if first = 13 ∧ second = 10 then some 0
      else (crlfIndex (second :: rest)).map (· + 1)

theorem findCrlfFrom_of_holds (mem : Bytes) (text : Bytes) :
    ∀ address : Int, Holds mem address text →
      findCrlfFrom mem (text.length - 1) address =
        (crlfIndex text).map (fun index => address + (index : Nat)) := by
  induction text with
  | nil =>
      intro address stored
      rfl
  | cons first rest induction =>
      intro address stored
      cases rest with
      | nil => rfl
      | cons second rest =>
          obtain ⟨here, behind⟩ := stored.cons
          obtain ⟨next, -⟩ := behind.cons
          have length : (first :: second :: rest).length - 1 =
              ((second :: rest).length - 1) + 1 := by simp
          rw [length, findCrlfFrom, here, next, crlfIndex]
          by_cases terminator : first = 13 ∧ second = 10
          · simp [terminator]
          · rw [if_neg terminator, if_neg terminator,
              induction (address + 1) behind]
            cases crlfIndex (second :: rest) with
            | none => rfl
            | some index =>
                simp only [Option.map_some, Option.some.injEq]
                push_cast
                ring

theorem findCrlf_of_holds {mem : Bytes} {address : Int} {text : Bytes}
    (stored : Holds mem address text) :
    findCrlf mem address text.length =
      (crlfIndex text).map (fun index => address + (index : Nat)) := by
  have count : ((text.length : Int) - 1).toNat = text.length - 1 := by omega
  rw [findCrlf, count]
  exact findCrlfFrom_of_holds mem text address stored

/-- A line without CR ends at the CR LF behind it. -/
theorem crlfIndex_line {line : Bytes} (plain : (13 : UInt8) ∉ line)
    (rest : Bytes) :
    crlfIndex (line ++ 13 :: 10 :: rest) = some line.length := by
  induction line with
  | nil => simp [crlfIndex]
  | cons byte line induction =>
      have other : byte ≠ 13 := fun equal => plain (by simp [equal])
      have tail := induction (fun member => plain (by simp [member]))
      cases line with
      | nil => simp [crlfIndex, other]
      | cons next line =>
          rw [List.cons_append, List.cons_append, crlfIndex,
            if_neg (fun both => other both.1)]
          rw [List.cons_append] at tail
          rw [tail]
          rfl

/-- A proper prefix of a terminated line without CR has no CR LF. -/
theorem crlfIndex_partial {line : Bytes} (plain : (13 : UInt8) ∉ line)
    {short : Bytes} (initial : short <+: line ++ [13]) :
    crlfIndex short = none := by
  induction line generalizing short with
  | nil =>
      rcases short with _ | ⟨first, _ | ⟨second, rest⟩⟩
      · rfl
      · rfl
      · simp at initial
  | cons byte line induction =>
      have other : byte ≠ 13 := fun equal => plain (by simp [equal])
      rcases short with _ | ⟨first, _ | ⟨second, rest⟩⟩
      · rfl
      · rfl
      · rw [List.cons_append, List.cons_prefix_cons] at initial
        obtain ⟨rfl, tail⟩ := initial
        rw [crlfIndex, if_neg (fun both => other both.1),
          induction (fun member => plain (by simp [member])) tail]
        rfl

/-- A text without CR LF moves the first CR LF of what follows it. -/
theorem crlfIndex_skip {short : Bytes} (unended : crlfIndex short = none)
    {next : UInt8} (other : next ≠ 10) (rest : Bytes) :
    crlfIndex (short ++ next :: rest) =
      (crlfIndex (next :: rest)).map (· + short.length) := by
  induction short with
  | nil => simp
  | cons first short induction =>
      cases short with
      | nil =>
          rw [List.cons_append, List.nil_append, crlfIndex,
            if_neg (fun both => other both.2)]
          rfl
      | cons second short =>
          rw [crlfIndex] at unended
          split_ifs at unended with terminator
          rw [Option.map_eq_none_iff] at unended
          have tail := induction unended
          rw [List.cons_append] at tail
          rw [List.cons_append, List.cons_append, crlfIndex,
            if_neg terminator, tail, Option.map_map]
          congr 1

theorem cr_not_mem_decimal (number : Nat) : (13 : UInt8) ∉ decimal number := by
  intro member
  exact absurd (isDigit_of_mem_decimal member) (by decide)

theorem digitFree_crlf (rest : Bytes) : DigitFree (13 :: rest) := by
  rfl

end Kivo.Resp.Frame
