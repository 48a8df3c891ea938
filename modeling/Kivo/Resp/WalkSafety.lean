import Kivo.Resp.Frame

/-!
# When an accepted window is safe to unpack

Both walkers move their cursor by the signed number that `atoi` read from a
`$` header, and only the upper end of an argument is compared with the window.
This module says exactly which accepted windows are harmless: those whose
count line and length lines declare no negative number.

The two directions rest on one observation.  `find_crlf` returns the first
CR LF behind the cursor, so the two walkers, which run over windows of
different length, stop at the same line ends as long as both find one.
-/

namespace Kivo.Resp.WalkSafety

open Kivo.Clib.Memory
open Kivo.Clib.Numeral
open Kivo.Resp.Frame

/-! ## The line end found by a search -/

theorem findCrlfFrom_some {mem : Bytes} {count : Nat} {p crlf : Int}
    (found : findCrlfFrom mem count p = some crlf) :
    p ≤ crlf ∧ crlf < p + count ∧
      byteAt mem crlf = 13 ∧ byteAt mem (crlf + 1) = 10 := by
  induction count generalizing p with
  | zero => simp [findCrlfFrom] at found
  | succ count induction =>
      rw [findCrlfFrom] at found
      split_ifs at found with here
      · cases found
        exact ⟨le_rfl, by push_cast; omega, here⟩
      · obtain ⟨lower, upper, terminator⟩ := induction found
        push_cast
        exact ⟨by omega, by omega, terminator⟩

/-- A search that reaches the line end of another search finds the same one. -/
theorem findCrlfFrom_of_reach {mem : Bytes} {count other : Nat} {p crlf : Int}
    (found : findCrlfFrom mem count p = some crlf)
    (reach : crlf < p + other) :
    findCrlfFrom mem other p = some crlf := by
  induction count generalizing p other with
  | zero => simp [findCrlfFrom] at found
  | succ count induction =>
      have lower := (findCrlfFrom_some found).1
      cases other with
      | zero =>
          push_cast at reach
          omega
      | succ other =>
          rw [findCrlfFrom] at found ⊢
          split_ifs at found ⊢ with here
          · exact found
          · apply induction found
            push_cast at reach
            omega

theorem findCrlf_some {mem : Bytes} {p len crlf : Int}
    (found : findCrlf mem p len = some crlf) :
    p ≤ crlf ∧ crlf + 2 ≤ p + len ∧
      byteAt mem crlf = 13 ∧ byteAt mem (crlf + 1) = 10 := by
  obtain ⟨lower, upper, terminator⟩ := findCrlfFrom_some found
  exact ⟨lower, by omega, terminator⟩

theorem findCrlf_of_reach {mem : Bytes} {p len other crlf : Int}
    (found : findCrlf mem p len = some crlf)
    (reach : crlf + 2 ≤ p + other) :
    findCrlf mem p other = some crlf := by
  have lower := (findCrlf_some found).1
  exact findCrlfFrom_of_reach found (by omega)

/-- Two searches from one cursor never disagree about the line end. -/
theorem findCrlf_unique {mem : Bytes} {p len other crlf crlf' : Int}
    (found : findCrlf mem p len = some crlf)
    (found' : findCrlf mem p other = some crlf') :
    crlf = crlf' := by
  rcases le_total crlf crlf' with before | after
  · have reach := (findCrlf_some found').2.1
    have same : findCrlf mem p other = some crlf :=
      findCrlf_of_reach found (by omega)
    rw [found'] at same
    exact (Option.some.inj same).symm
  · have reach := (findCrlf_some found).2.1
    have same : findCrlf mem p len = some crlf' :=
      findCrlf_of_reach found' (by omega)
    rw [found] at same
    exact Option.some.inj same

/-! ## One step of the probe -/

/-- Everything a successful iteration of the argument loop has checked. -/
theorem walkArguments_succ {mem : Bytes} {buf bufLen p last : Int}
    {count : Nat}
    (walked : walkArguments mem buf bufLen (count + 1) p = some last) :
    ∃ crlf,
      p - buf < bufLen ∧ byteAt mem p = 36 ∧
      findCrlf mem p (toInt32 (bufLen - (p - buf))) = some crlf ∧
      (let argLen := atoi (bytesFrom mem (p + 1))
       crlf + 2 - buf + argLen + 2 ≤ bufLen ∧
        byteAt mem (crlf + 2 + argLen) = 13 ∧
        byteAt mem (crlf + 2 + argLen + 1) = 10 ∧
        walkArguments mem buf bufLen count (crlf + 2 + argLen + 2) =
          some last) := by
  rw [walkArguments] at walked
  split_ifs at walked with outside
  rw [not_or, not_not] at outside
  split at walked
  · exact absurd walked (by simp)
  · rename_i crlf found
    dsimp only at walked
    split_ifs at walked with long unterminated
    rw [not_or, not_not, not_not] at unterminated
    exact ⟨crlf, by omega, outside.2, found, by omega,
      unterminated.1, unterminated.2, walked⟩

/-! ## Declared numbers -/

/-- The argument count declared by the first line of a window. -/
def declaredCount (mem : Bytes) (buf : Int) : Int :=
  atoi (bytesFrom mem (buf + 1))

/-- The address behind the first line of a window. -/
def firstArgument (mem : Bytes) (buf bufLen : Int) : Int :=
  match findCrlf mem buf bufLen with
  | none => buf
  | some crlf => crlf + 2

/-- The lengths declared by the `$` lines that a walk meets. -/
def declaredLengths (mem : Bytes) (buf bufLen : Int) : Nat → Int → List Int
  | 0, _ => []
  | count + 1, p =>
      match findCrlf mem p (toInt32 (bufLen - (p - buf))) with
      | none => []
      | some crlf =>
          let argLen := atoi (bytesFrom mem (p + 1))
          argLen ::
            declaredLengths mem buf bufLen count (crlf + 2 + argLen + 2)

/-- No line of the window declares a negative number. -/
def SignsNonnegative (mem : Bytes) (buf bufLen : Int) : Prop :=
  0 ≤ declaredCount mem buf ∧
    ∀ argLen ∈ declaredLengths mem buf bufLen
        (declaredCount mem buf).toNat (firstArgument mem buf bufLen),
      0 ≤ argLen

/--
What a caller relies on when `resp_unpack_no_modify` runs over the first
`length` bytes of an accepted window.
-/
structure UnpackSafe (mem : Bytes) (buf bufLen length : Int) : Prop where
  positive : 0 < length
  bounded : length ≤ bufLen
  sameCount :
    (respUnpackNoModify mem buf length).argc =
      (declaredCount mem buf).toNat
  lengthsNonnegative :
    ∀ argLen ∈ (respUnpackNoModify mem buf length).argvLen, 0 ≤ argLen
  inside :
    ∀ entry ∈ (respUnpackNoModify mem buf length).argv.zip
        (respUnpackNoModify mem buf length).argvLen,
      buf ≤ entry.1 ∧ entry.1 + entry.2 + 2 ≤ buf + length
  terminated :
    ∀ entry ∈ (respUnpackNoModify mem buf length).argv.zip
        (respUnpackNoModify mem buf length).argvLen,
      byteAt mem (entry.1 + entry.2) = 13 ∧
        byteAt mem (entry.1 + entry.2 + 1) = 10
  increasing :
    ((respUnpackNoModify mem buf length).argv.zip
      (respUnpackNoModify mem buf length).argvLen).Pairwise
        (fun left right => left.1 + left.2 ≤ right.1)

/-! ## The second walker follows the first -/

/-- An interrupted unpacking loop has filled fewer entries than declared. -/
theorem unpackArguments_interrupted {mem : Bytes} {buf bufLen p : Int}
    {count : Nat}
    (stopped : (unpackArguments mem buf bufLen count p).2 = false) :
    (unpackArguments mem buf bufLen count p).1.length < count := by
  induction count generalizing p with
  | zero => simp [unpackArguments] at stopped
  | succ count induction =>
      rw [unpackArguments] at stopped ⊢
      split at stopped
      · simp
      · simp only [List.length_cons]
        exact Nat.succ_lt_succ (induction stopped)

/-- A completed unpacking loop read the lengths the probe had read. -/
theorem unpackArguments_lengths {mem : Bytes} {buf bufLen length p last : Int}
    {count : Nat}
    (walked : walkArguments mem buf bufLen count p = some last)
    (finished : (unpackArguments mem buf length count p).2 = true) :
    (unpackArguments mem buf length count p).1.map Prod.snd =
      declaredLengths mem buf bufLen count p := by
  induction count generalizing p with
  | zero => rfl
  | succ count induction =>
      obtain ⟨crlf, -, -, found, -, -, -, rest⟩ := walkArguments_succ walked
      rw [unpackArguments] at finished ⊢
      rw [declaredLengths, found]
      split at finished
      · simp at finished
      · rename_i crlf' found'
        obtain rfl := findCrlf_unique found found'
        simp only [List.map_cons]
        rw [induction rest finished]

/-- What the unpacking loop records from a cursor on. -/
structure EntriesSafe (mem : Bytes) (start last : Int)
    (entries : List (Int × Int)) : Prop where
  lengths : ∀ entry ∈ entries, 0 ≤ entry.2
  inside : ∀ entry ∈ entries,
    start ≤ entry.1 ∧ entry.1 + entry.2 + 2 ≤ last
  terminated : ∀ entry ∈ entries,
    byteAt mem (entry.1 + entry.2) = 13 ∧
      byteAt mem (entry.1 + entry.2 + 1) = 10
  increasing : entries.Pairwise
    (fun left right => left.1 + left.2 ≤ right.1)

/-- Without negative lengths the probe only moves forward. -/
theorem walkArguments_forward {mem : Bytes} {buf bufLen p last : Int}
    {count : Nat}
    (walked : walkArguments mem buf bufLen count p = some last)
    (nonnegative : ∀ argLen ∈ declaredLengths mem buf bufLen count p,
      0 ≤ argLen) :
    p ≤ last := by
  induction count generalizing p with
  | zero =>
      rw [walkArguments] at walked
      exact (Option.some.inj walked).le
  | succ count induction =>
      obtain ⟨crlf, -, -, found, -, -, -, rest⟩ := walkArguments_succ walked
      rw [declaredLengths, found] at nonnegative
      have first := nonnegative _ List.mem_cons_self
      have later := induction rest
        (fun argLen member => nonnegative _ (List.mem_cons_of_mem _ member))
      have lower := (findCrlf_some found).1
      omega

/-- The cursor stays below the window end. -/
theorem walkArguments_bounded {mem : Bytes} {buf bufLen p last : Int}
    {count : Nat}
    (walked : walkArguments mem buf bufLen count p = some last)
    (start : p - buf ≤ bufLen) :
    last - buf ≤ bufLen := by
  induction count generalizing p with
  | zero =>
      rw [walkArguments] at walked
      cases walked
      exact start
  | succ count induction =>
      obtain ⟨crlf, -, -, -, fits, -, -, rest⟩ := walkArguments_succ walked
      exact induction rest (by omega)

/--
Over the accepted prefix the unpacking loop visits the same arguments as the
probe and records them safely.
-/
theorem unpackArguments_safe {mem : Bytes} {buf bufLen p last : Int}
    {count : Nat}
    (walked : walkArguments mem buf bufLen count p = some last)
    (nonnegative : ∀ argLen ∈ declaredLengths mem buf bufLen count p,
      0 ≤ argLen)
    (start : buf ≤ p) (fits : last - buf < 2 ^ 31) :
    (unpackArguments mem buf (last - buf) count p).2 = true ∧
      EntriesSafe mem p last
        (unpackArguments mem buf (last - buf) count p).1 := by
  induction count generalizing p with
  | zero =>
      exact ⟨rfl, by simp [unpackArguments], by simp [unpackArguments],
        by simp [unpackArguments], by simp [unpackArguments]⟩
  | succ count induction =>
      obtain ⟨crlf, -, -, found, -, carriage, feed, rest⟩ :=
        walkArguments_succ walked
      rw [declaredLengths, found] at nonnegative
      have first := nonnegative _ List.mem_cons_self
      have others : ∀ argLen ∈ declaredLengths mem buf bufLen count
          (crlf + 2 + atoi (bytesFrom mem (p + 1)) + 2), 0 ≤ argLen :=
        fun argLen member => nonnegative _ (List.mem_cons_of_mem _ member)
      have forward := walkArguments_forward rest others
      have lower := (findCrlf_some found).1
      have inRange : toInt32 (last - buf - (p - buf)) =
          last - buf - (p - buf) :=
        toInt32_of_range (by omega) (by omega)
      have refound : findCrlf mem p (last - buf - (p - buf)) = some crlf :=
        findCrlf_of_reach found (by omega)
      obtain ⟨finished, safe⟩ := induction rest others (by omega)
      rw [unpackArguments, inRange, refound]
      refine ⟨finished, ?_, ?_, ?_, ?_⟩
      · intro entry member
        rcases List.mem_cons.mp member with rfl | member
        · exact first
        · exact safe.lengths entry member
      · intro entry member
        rcases List.mem_cons.mp member with rfl | member
        · exact ⟨by dsimp only; omega, by dsimp only; omega⟩
        · have bounds := safe.inside entry member
          exact ⟨by omega, bounds.2⟩
      · intro entry member
        rcases List.mem_cons.mp member with rfl | member
        · exact ⟨carriage, feed⟩
        · exact safe.terminated entry member
      · refine List.pairwise_cons.mpr ⟨?_, safe.increasing⟩
        intro entry member
        have bounds := safe.inside entry member
        dsimp only
        omega

/-! ## The characterisation -/

/-- What acceptance of a window means, step by step. -/
theorem hasCompleteRespCommand_some {mem : Bytes} {buf bufLen length : Int}
    (accepted : hasCompleteRespCommand mem buf bufLen = some length) :
    ∃ crlf last,
      4 ≤ bufLen ∧ byteAt mem buf = 42 ∧
      findCrlf mem buf bufLen = some crlf ∧
      walkArguments mem buf bufLen (declaredCount mem buf).toNat (crlf + 2) =
        some last ∧
      length = toInt32 (last - buf) := by
  rw [hasCompleteRespCommand] at accepted
  split_ifs at accepted with short
  rw [not_or, not_not] at short
  split at accepted
  · exact absurd accepted (by simp)
  · rename_i crlf found
    obtain ⟨last, walked, rfl⟩ := Option.map_eq_some_iff.mp accepted
    exact ⟨crlf, last, by omega, short.2, found, walked, rfl⟩

theorem zip_map_fst_snd (entries : List (Int × Int)) :
    (entries.map Prod.fst).zip (entries.map Prod.snd) = entries := by
  induction entries with
  | nil => rfl
  | cons entry entries induction => simp [induction]

/-- An accepted window without negative numbers is safe. -/
theorem unpackSafe_of_signs {mem : Bytes} {buf bufLen length : Int}
    (int : bufLen < 2 ^ 31)
    (accepted : hasCompleteRespCommand mem buf bufLen = some length)
    (signs : SignsNonnegative mem buf bufLen) :
    UnpackSafe mem buf bufLen length := by
  obtain ⟨crlf, last, -, -, found, walked, lengthEq⟩ :=
    hasCompleteRespCommand_some accepted
  obtain ⟨lower, upper, -⟩ := findCrlf_some found
  obtain ⟨countSign, lengthSigns⟩ := signs
  have start : firstArgument mem buf bufLen = crlf + 2 := by
    rw [firstArgument, found]
  rw [start] at lengthSigns
  have forward := walkArguments_forward walked lengthSigns
  have bounded := walkArguments_bounded walked (by omega)
  rw [toInt32_of_range (by omega) (by omega)] at lengthEq
  subst lengthEq
  have refound : findCrlf mem buf (last - buf) = some crlf :=
    findCrlf_of_reach found (by omega)
  obtain ⟨finished, safe⟩ :=
    unpackArguments_safe walked lengthSigns (by omega) (by omega)
  have unpacked : respUnpackNoModify mem buf (last - buf) =
      { argc := declaredCount mem buf
        argv := (unpackArguments mem buf (last - buf)
          (declaredCount mem buf).toNat (crlf + 2)).1.map Prod.fst
        argvLen := (unpackArguments mem buf (last - buf)
          (declaredCount mem buf).toNat (crlf + 2)).1.map Prod.snd
        isDynamic := decide (respStaticArgc < declaredCount mem buf) } := by
    rw [respUnpackNoModify, refound]
    rw [declaredCount] at finished ⊢
    simp only [finished, if_true]
  constructor
  · omega
  · exact bounded
  · rw [unpacked]
    exact (Int.toNat_of_nonneg countSign).symm
  · rw [unpacked]
    intro argLen member
    obtain ⟨entry, entryMember, rfl⟩ := List.mem_map.mp member
    exact safe.lengths entry entryMember
  · rw [unpacked, zip_map_fst_snd]
    intro entry member
    have bounds := safe.inside entry member
    exact ⟨by omega, by omega⟩
  · rw [unpacked, zip_map_fst_snd]
    exact safe.terminated
  · rw [unpacked, zip_map_fst_snd]
    exact safe.increasing

/-- A safe window declares no negative number. -/
theorem signs_of_unpackSafe {mem : Bytes} {buf bufLen length : Int}
    (int : bufLen < 2 ^ 31)
    (accepted : hasCompleteRespCommand mem buf bufLen = some length)
    (safe : UnpackSafe mem buf bufLen length) :
    SignsNonnegative mem buf bufLen := by
  obtain ⟨crlf, last, -, -, found, walked, lengthEq⟩ :=
    hasCompleteRespCommand_some accepted
  obtain ⟨lower, upper, -⟩ := findCrlf_some found
  have same := safe.sameCount
  have start : firstArgument mem buf bufLen = crlf + 2 := by
    rw [firstArgument, found]
  rw [SignsNonnegative, start]
  rw [respUnpackNoModify] at same
  cases refound : findCrlf mem buf length with
  | none =>
      rw [refound] at same
      dsimp only at same
      have zero : (declaredCount mem buf).toNat = 0 := by omega
      rw [zero, walkArguments] at walked
      cases walked
      rw [toInt32_of_range (by omega) (by omega)] at lengthEq
      have contradiction : findCrlf mem buf length = some crlf :=
        findCrlf_of_reach found (by omega)
      rw [refound] at contradiction
      cases contradiction
  | some crlf' =>
      obtain rfl := findCrlf_unique found refound
      have lengths := safe.lengthsNonnegative
      rw [respUnpackNoModify, refound] at lengths
      rw [refound] at same
      dsimp only at same lengths
      change (if _ then declaredCount mem buf else _) = _ at same
      cases finished : (unpackArguments mem buf length
          (declaredCount mem buf).toNat (crlf + 2)).2 with
      | true =>
          rw [declaredCount] at finished same
          rw [finished, if_pos rfl] at same
          refine ⟨?_, ?_⟩
          · rw [declaredCount]
            omega
          · rw [← unpackArguments_lengths walked finished]
            exact lengths
      | false =>
          have fewer := unpackArguments_interrupted finished
          rw [declaredCount] at finished same fewer
          rw [finished, if_neg (by simp)] at same
          omega

/--
Of the accepted windows exactly those are safe whose lines declare no
negative number.
-/
theorem unpackSafe_iff_signsNonnegative
    (mem : Bytes) (buf bufLen length : Int)
    (int : bufLen < 2 ^ 31)
    (accepted : hasCompleteRespCommand mem buf bufLen = some length) :
    UnpackSafe mem buf bufLen length ↔ SignsNonnegative mem buf bufLen :=
  ⟨signs_of_unpackSafe int accepted, unpackSafe_of_signs int accepted⟩

/-- A `GET` whose key length is a plain number. -/
theorem unpackSafe_iff_signsNonnegative_get :
    let mem := ascii "*2\r\n$3\r\nGET\r\n$1\r\nk\r\n"
    hasCompleteRespCommand mem 0 20 = some 20 ∧ UnpackSafe mem 0 20 20 := by
  refine ⟨by decide, ?_⟩
  apply (unpackSafe_iff_signsNonnegative _ 0 20 20 (by decide)
    (by decide)).mpr
  exact ⟨by decide, by decide⟩

/--
The length `-2` points back at the CR LF of its own header, so the probe
accepts it and the caller receives a negative argument length.
-/
theorem unpack_negative_length :
    let mem := ascii "*2\r\n$3\r\nGET\r\n$-2\r\n"
    hasCompleteRespCommand mem 0 18 = some 18 ∧
      (respUnpackNoModify mem 0 18).argvLen = [3, -2] ∧
      ¬ UnpackSafe mem 0 18 18 := by
  have accepted : hasCompleteRespCommand
      (ascii "*2\r\n$3\r\nGET\r\n$-2\r\n") 0 18 = some 18 := by decide
  have lengths : (respUnpackNoModify
      (ascii "*2\r\n$3\r\nGET\r\n$-2\r\n") 0 18).argvLen = [3, -2] := by decide
  refine ⟨accepted, lengths, ?_⟩
  intro safe
  have negative := safe.lengthsNonnegative (-2)
    (by rw [lengths]; simp)
  omega

end Kivo.Resp.WalkSafety
