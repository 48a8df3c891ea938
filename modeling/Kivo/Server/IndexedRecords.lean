import Kivo.Clib.GrowingBuffer
import Kivo.Clib.PaddedNumeral
import Kivo.Server.IdLists

/-!
# The records behind a keyword

`GETIDXREC` cuts the list of a keyword into ids and joins the records of the
ids with line feeds.  The functions of this file follow the source down to the
cells: the ids are cut out by a loop over the positions of the list, and the
reply is written into a buffer that doubles its capacity.  They have a result
only when every write lies inside the buffer, and then it is that of the
handler.
-/

namespace Kivo.Server.IndexedRecords

open Kivo.Clib.Memory
open Kivo.Clib.Simulation
open Kivo.Clib.Separated
open Kivo.Clib.GrowingBuffer
open Kivo.Clib.Numeral
open Kivo.Clib.PaddedNumeral (decimal_length_le_iff)
open Kivo.Engine.HashEngine
open Kivo.Engine.HashTable (slotLimit)
open Kivo.Engine.KeyMap
open Kivo.Engine.LastingTable
open Kivo.Engine.Store
open Kivo.Resp.Canonical
open Kivo.Resp.Frame
open Kivo.Resp.Reply
open Kivo.Server.State
open Kivo.Server.Commands
open Kivo.Server.CommandTable
open Kivo.Server.Requests (Arrived arrived_encode)
open Kivo.Server.Changes (arg_eq)
open Kivo.Server.Alignment (freshSession)
open Kivo.Server.TimeIndex (Invocation invoke invocationOf)
open Kivo.Server.IdLists

/-! ## Cutting the list -/

/-- The variables of the loop of `cmd_getidxrec`; the ids stand for the array
and its length for `count`. -/
structure IdScan where
  start : Nat
  ids : List Bytes
  cap : Int

/-- The variables in front of the loop. -/
def IdScan.initial : IdScan :=
  { start := 0, ids := [], cap := 8 }

/-- One position of the list; no result when the array is not reallocated, which
takes a negative number of pointers as a huge `size_t`. -/
def idScanStep (list : Bytes) (scan : IdScan) (i : Nat) : Option IdScan :=
  if i = list.length ∨ list.getD i 0 = 44 then
    let idLen := i - scan.start
    if 0 < idLen then
      let cap :=
        if scan.cap ≤ scan.ids.length then toInt32 (scan.cap * 2)
        else scan.cap
      if cap < 0 then none
      else
        some
          { start := i + 1
            ids := scan.ids ++ [(list.drop scan.start).take idLen]
            cap := cap }
    else some { scan with start := i + 1 }
  else some scan

/-- The loop over the positions of the list and the one behind it. -/
def idScan (list : Bytes) : Option IdScan :=
  (List.range (list.length + 1)).foldlM (idScanStep list) IdScan.initial

/-! ## Writing the reply -/

/-- The variables of `build_records_newline`. -/
structure RecordBuffer where
  buf : Bytes
  len : Nat
  written : Nat

/-- The buffer of 4096 bytes, with what the allocator left in it. -/
def freshRecords (junk : Nat → UInt8) : RecordBuffer :=
  { buf := (List.range 4096).map junk, len := 0, written := 0 }

/-- Make room for a record, write the line feed and the record; no result when
a write leaves the buffer. -/
def addRecord (junk : Nat → UInt8) (buffer : RecordBuffer)
    (record : Bytes) : Option RecordBuffer :=
  let need := buffer.len + record.length + 2
  let buf :=
    extended junk (doubleUntil need need buffer.buf.length) buffer.buf
  let separator : Bytes := if 0 < buffer.written then [10] else []
  (write buf buffer.len separator).bind (fun buf =>
    (write buf (buffer.len + separator.length) record).map (fun buf =>
      { buf := buf
        len := buffer.len + separator.length + record.length
        written := buffer.written + 1 }))

/-- The loop of `build_records_newline` on the buffer. -/
def writeRecords (junk : Nat → UInt8) (enableTtl : Bool) (now : Nat → Int) :
    List Bytes → Nat → KvsHash → RecordBuffer →
      Option (KvsHash × RecordBuffer)
  | [], _, hash, buffer => some (hash, buffer)
  | id :: ids, tick, hash, buffer =>
      let result := kvsHashGet enableTtl (now tick) hash (cString id) 0
      let record := result.2.getD []
      if record.length = 0 then
        writeRecords junk enableTtl now ids (tick + 1) result.1 buffer
      else
        (addRecord junk buffer record).bind
          (writeRecords junk enableTtl now ids (tick + 1) result.1)

/-- `build_records_newline` with its buffer. -/
def writeRecordsNewline (junk : Nat → UInt8) (call : Call)
    (ids : List Bytes) (tick : Nat) (store : Store) :
    Option (Store × RespReply) :=
  if ids.length = 0 then some (store, RespReply.plain .noExists)
  else
    (writeRecords junk call.flags.enableTtl call.world.now ids tick
      (store.tables.hashes .hash3) (freshRecords junk)).map (fun result =>
        (store.setHash .hash3 result.1,
          if result.2.written = 0 then RespReply.plain .noExists
          else
            { status := .getOk
              body := some (result.2.buf.take result.2.len)
              bodyLen := toInt32 result.2.len }))

/-- `cmd_getidxrec` with its loop and its buffer. -/
def writeGetidxrec (junk : Nat → UInt8) (call : Call) (store : Store) :
    Option (Store × RespReply) :=
  if call.argc ≠ 2 then some (parseError store)
  else
    let result := store.operate call (.hash .hash4)
      (.get (call.world.now 0) (call.arg 1))
    let list := (foundOf result.2).getD []
    if list.length = 0 then some (result.1, RespReply.plain .noExists)
    else
      match idScan list with
      | none => some (result.1, RespReply.plain .error)
      | some scan => writeRecordsNewline junk call scan.ids 1 result.1

/-! ## The loop over the list -/

/-- The ids among some pieces. -/
def proper (parts : List Bytes) : List Bytes :=
  parts.filter (fun id => decide (0 < id.length))

theorem listedIds_eq (list : Bytes) :
    listedIds list = proper (pieces 44 list) := by
  rw [listedIds, splitComma_eq, proper]

theorem proper_append (first second : List Bytes) :
    proper (first ++ second) = proper first ++ proper second :=
  List.filter_append ..

/-- What the loop has done in front of a position: the pieces in front of
`start` are cut off, no comma has come since, and the array, which has doubled
some times, has room. -/
structure Scanned (list : Bytes) (i : Nat) (scan : IdScan) : Prop where
  start : scan.start ≤ i
  plain : (44 : UInt8) ∉ (list.drop scan.start).take (i - scan.start)
  ids : ∃ parts, scan.ids = proper parts ∧
    ∀ tail, pieces 44 (list.take scan.start ++ tail) = parts ++ pieces 44 tail
  room : scan.ids.length ≤ scan.cap
  capacity : ∃ turns ≤ 27, scan.cap = 8 * 2 ^ turns

theorem scanned_begin (list : Bytes) : Scanned list 0 IdScan.initial :=
  { start := Nat.le_refl _
    plain := List.not_mem_nil
    ids := ⟨[], rfl, fun _ => rfl⟩
    room := by decide
    capacity := ⟨0, by decide, rfl⟩ }

/-- A full array doubles, unless it is the largest one. -/
theorem doubled_capacity {cap : Int}
    (capacity : ∃ turns ≤ 27, cap = 8 * 2 ^ turns) :
    cap = maxListedIds ∧ toInt32 (cap * 2) < 0 ∨
      (∃ turns ≤ 27, toInt32 (cap * 2) = 8 * 2 ^ turns) ∧
        toInt32 (cap * 2) = cap * 2 ∧ 0 < cap := by
  obtain ⟨turns, few, rfl⟩ := capacity
  rcases Nat.lt_or_ge turns 27 with fewer | all
  · right
    have power : (2 : Int) ^ turns ≤ 2 ^ 26 :=
      pow_le_pow_right₀ (by decide) (by omega)
    have positive : (0 : Int) < 2 ^ turns := by positivity
    have int : toInt32 (8 * 2 ^ turns * 2) = 8 * 2 ^ turns * 2 :=
      toInt32_of_range (by omega) (by omega)
    refine ⟨⟨turns + 1, fewer, ?_⟩, int, by omega⟩
    rw [int, pow_succ, mul_assoc]
  · left
    obtain rfl : turns = 27 := by omega
    exact ⟨by decide, by decide +kernel⟩

/-- The array never outgrows the largest one. -/
theorem capacity_le {cap : Int}
    (capacity : ∃ turns ≤ 27, cap = 8 * 2 ^ turns) :
    cap ≤ maxListedIds ∧ 0 < cap := by
  obtain ⟨turns, few, rfl⟩ := capacity
  have power : (2 : Int) ^ turns ≤ 2 ^ 27 :=
    pow_le_pow_right₀ (by decide) few
  have positive : (0 : Int) < 2 ^ turns := by positivity
  rw [maxListedIds]
  push_cast
  omega

/-- At a comma and at the end the current piece is cut off, as long as the array
can take it. -/
theorem Scanned.cut {list : Bytes} {i : Nat} {scan : IdScan}
    (scanned : Scanned list i scan) (inside : i ≤ list.length)
    (here : i = list.length ∨ list.getD i 0 = 44) :
    ∃ parts, (∀ tail, pieces 44 (list.take scan.start ++ tail) =
        parts ++ pieces 44 tail) ∧
      match idScanStep list scan i with
      | none => maxListedIds <
          (proper (parts ++
            [(list.drop scan.start).take (i - scan.start)])).length
      | some after =>
          after.ids = proper
              (parts ++ [(list.drop scan.start).take (i - scan.start)]) ∧
            after.start = i + 1 ∧ (after.ids.length : Int) ≤ after.cap ∧
            ∃ turns ≤ 27, after.cap = 8 * 2 ^ turns := by
  obtain ⟨before, plain, ⟨parts, ids, split⟩, room, capacity⟩ := scanned
  have width : ((list.drop scan.start).take (i - scan.start)).length =
      i - scan.start := by
    rw [List.length_take, List.length_drop]
    omega
  refine ⟨parts, split, ?_⟩
  have positive := (capacity_le capacity).2
  rw [idScanStep, if_pos here, proper_append, ← ids]
  dsimp only
  by_cases long : 0 < i - scan.start
  · have kept : proper [(list.drop scan.start).take (i - scan.start)] =
        [(list.drop scan.start).take (i - scan.start)] :=
      List.filter_cons_of_pos (by simpa [width] using long)
    rw [if_pos long, kept]
    by_cases full : scan.cap ≤ scan.ids.length
    · rw [if_pos full]
      rcases doubled_capacity capacity with ⟨most, negative⟩ |
        ⟨power, double, -⟩
      · rw [if_pos negative]
        dsimp only
        rw [List.length_append, List.length_singleton]
        omega
      · rw [if_neg (by omega)]
        refine ⟨rfl, rfl, ?_, power⟩
        dsimp only
        rw [List.length_append, List.length_singleton]
        push_cast
        omega
    · rw [if_neg full, if_neg (by omega)]
      refine ⟨rfl, rfl, ?_, capacity⟩
      dsimp only
      rw [List.length_append, List.length_singleton]
      push_cast
      omega
  · have blank : proper [(list.drop scan.start).take (i - scan.start)] = [] :=
      List.filter_cons_of_neg (by simpa [width] using long)
    rw [if_neg long, blank]
    exact ⟨(List.append_nil _).symm, rfl, room, capacity⟩

/-- The text in front of the next position ends with the byte at this one. -/
theorem take_drop_succ {list : Bytes} {start i : Nat} (before : start ≤ i)
    (inside : i < list.length) :
    (list.drop start).take (i + 1 - start) =
      (list.drop start).take (i - start) ++ [list.getD i 0] := by
  have next : i + 1 - start = i - start + 1 := by omega
  have index : start + (i - start) = i := by omega
  rw [next, List.take_add_one, List.getElem?_drop, index,
    List.getD_eq_getElem?_getD, List.getElem?_eq_getElem inside]
  rfl

/-- The loop has come to a position, or the list has more ids than the array
can take. -/
def Reached (list : Bytes) (i : Nat) : Option IdScan → Prop
  | none => maxListedIds < (listedIds list).length
  | some scan => Scanned list i scan

/-- One position of the loop. -/
theorem Scanned.step {list : Bytes} {i : Nat} {scan : IdScan}
    (scanned : Scanned list i scan) (inside : i < list.length) :
    Reached list (i + 1) (idScanStep list scan i) := by
  have longer := take_drop_succ scanned.start inside
  have front : list.take (i + 1) = list.take scan.start ++
      (list.drop scan.start).take (i + 1 - scan.start) := by
    rw [← List.take_add]
    congr 1
    have before := scanned.start
    omega
  by_cases comma : list.getD i 0 = 44
  · obtain ⟨parts, split, stepped⟩ :=
      scanned.cut (Nat.le_of_lt inside) (Or.inr comma)
    have behind : ∀ tail, pieces 44 (list.take (i + 1) ++ tail) =
        (parts ++ [(list.drop scan.start).take (i - scan.start)]) ++
          pieces 44 tail := by
      intro tail
      rw [front, longer, comma, List.append_assoc, List.append_assoc,
        split, List.singleton_append, pieces_append,
        pieces_of_free scanned.plain, List.append_assoc]
    revert stepped
    cases idScanStep list scan i with
    | none =>
        intro many
        have whole := behind (list.drop (i + 1))
        rw [List.take_append_drop] at whole
        rw [Reached, listedIds_eq, whole, proper_append, List.length_append]
        exact Nat.lt_add_right _ many
    | some after =>
        rintro ⟨ids, start, room, capacity⟩
        refine ⟨by omega, ?_, ⟨_, ids, ?_⟩, room, capacity⟩
        · rw [start, Nat.sub_self, List.take_zero]
          exact List.not_mem_nil
        · rw [start]
          exact behind
  · have same : idScanStep list scan i = some scan :=
      if_neg (fun stop => stop.elim (by omega) comma)
    rw [same]
    refine ⟨Nat.le_succ_of_le scanned.start, ?_, scanned.ids, scanned.room,
      scanned.capacity⟩
    rw [longer, List.mem_append, List.mem_singleton]
    exact fun member => member.elim scanned.plain (fun here => comma here.symm)

theorem reached_range (list : Bytes) {count : Nat}
    (inside : count ≤ list.length) :
    Reached list count
      ((List.range count).foldlM (idScanStep list) IdScan.initial) := by
  induction count with
  | zero => exact scanned_begin list
  | succ count induction =>
      have before := induction (by omega)
      rw [List.range_succ, List.foldlM_append]
      revert before
      cases (List.range count).foldlM (idScanStep list) IdScan.initial with
      | none => exact id
      | some scan =>
          intro scanned
          simp only [Option.bind_eq_bind, Option.bind_some, List.foldlM_cons,
            List.foldlM_nil, Option.pure_def, Option.bind_fun_some]
          exact scanned.step (by omega)

/-- The loop cuts out the ids of the list, and the array has room for them,
unless they are too many. -/
theorem idScan_ids (list : Bytes) :
    match idScan list with
    | none => maxListedIds < (listedIds list).length
    | some scan => scan.ids = listedIds list ∧
        (scan.ids.length : Int) ≤ scan.cap ∧
        (listedIds list).length ≤ maxListedIds := by
  have reached := reached_range list (Nat.le_refl _)
  rw [idScan, List.range_succ, List.foldlM_append]
  revert reached
  cases (List.range list.length).foldlM (idScanStep list) IdScan.initial with
  | none => exact id
  | some scan =>
      intro scanned
      simp only [Option.bind_eq_bind, Option.bind_some, List.foldlM_cons,
        List.foldlM_nil, Option.pure_def, Option.bind_fun_some]
      obtain ⟨parts, split, stepped⟩ :=
        Scanned.cut scanned (Nat.le_refl _) (Or.inl rfl)
      have whole := split
        ((list.drop scan.start).take (list.length - scan.start))
      have before := scanned.start
      rw [pieces_of_free scanned.plain, ← List.take_add,
        List.take_of_length_le (by omega)] at whole
      rw [listedIds_eq, whole]
      revert stepped
      cases idScanStep list scan list.length with
      | none => exact id
      | some last =>
          rintro ⟨ids, -, room, capacity⟩
          have most := (capacity_le capacity).1
          refine ⟨ids, room, ?_⟩
          rw [← ids]
          omega

/-! ## The buffer -/

/-- The buffer holds some records, one a line. -/
structure Filled (buffer : RecordBuffer) (records : List Bytes) : Prop where
  inside : buffer.len ≤ buffer.buf.length
  capacity : 0 < buffer.buf.length
  text : buffer.buf.take buffer.len = joined 10 records
  written : buffer.written = records.length

theorem filled_fresh (junk : Nat → UInt8) : Filled (freshRecords junk) [] := by
  have length : (freshRecords junk).buf.length = 4096 := by
    rw [freshRecords, List.length_map, List.length_range]
  constructor
  · exact Nat.zero_le _
  · rw [length]
    decide
  · rfl
  · rfl

/-- A record is written inside the buffer, on a line of its own. -/
theorem Filled.add {buffer : RecordBuffer} {records : List Bytes}
    (filled : Filled buffer records) (junk : Nat → UInt8) (record : Bytes) :
    ∃ after, addRecord junk buffer record = some after ∧
      Filled after (records ++ [record]) := by
  obtain ⟨inside, capacity, text, written⟩ := filled
  rw [addRecord]
  generalize room : doubleUntil (buffer.len + record.length + 2)
    (buffer.len + record.length + 2) buffer.buf.length = cap
  have enough := @doubleUntil_self (buffer.len + record.length + 2)
    buffer.buf.length capacity
  have larger := le_doubleUntil (buffer.len + record.length + 2)
    (buffer.len + record.length + 2) buffer.buf.length
  rw [room] at enough larger
  have size := extended_length junk larger
  have kept := take_extended junk cap inside
  rw [text] at kept
  generalize extended junk cap buffer.buf = cells at size kept
  generalize line : (if 0 < buffer.written then [10] else [] : Bytes) =
    separator
  have short : separator.length ≤ 1 := by
    rw [← line]
    split_ifs <;> decide
  obtain ⟨first, wrote, length, front⟩ :=
    @write_some _ cells separator buffer.len (by omega)
  obtain ⟨second, wrote', length', front'⟩ :=
    @write_some _ first record (buffer.len + separator.length) (by omega)
  rw [wrote, Option.bind_some, wrote', Option.map_some]
  refine ⟨_, rfl, ?_⟩
  constructor
  · dsimp only
    omega
  · dsimp only
    omega
  · dsimp only
    rw [front', front, kept, ← line, written]
    by_cases none : records = []
    · subst none
      exact (joined_singleton record).symm
    · have some : 0 < records.length := List.length_pos_of_ne_nil none
      rw [if_pos some, joined_concat none, List.append_assoc,
        List.singleton_append]
  · dsimp only
    rw [written, List.length_append, List.length_singleton]

/-- The loop writes the records that are found, and never outside the
buffer. -/
theorem Filled.writeRecords {buffer : RecordBuffer} {records : List Bytes}
    (filled : Filled buffer records) (junk : Nat → UInt8) (enableTtl : Bool)
    (now : Nat → Int) (ids : List Bytes) (tick : Nat) (hash : KvsHash) :
    ∃ after, writeRecords junk enableTtl now ids tick hash buffer =
        some ((buildRecords enableTtl now ids tick hash).1, after) ∧
      Filled after
        (records ++ (buildRecords enableTtl now ids tick hash).2) := by
  induction ids generalizing buffer records tick hash with
  | nil =>
      refine ⟨buffer, rfl, ?_⟩
      rw [buildRecords, List.append_nil]
      exact filled
  | cons id ids induction =>
      rw [IndexedRecords.writeRecords, buildRecords]
      generalize kvsHashGet enableTtl (now tick) hash (cString id) 0 = result
      by_cases missing : (result.2.getD []).length = 0
      · simp only [if_pos missing]
        exact induction filled (tick + 1) result.1
      · obtain ⟨between, wrote, more⟩ :=
          filled.add junk (result.2.getD [])
        obtain ⟨after, rest, last⟩ := induction more (tick + 1) result.1
        simp only [if_neg missing, wrote, Option.bind_some, rest]
        rw [List.append_assoc] at last
        exact ⟨after, rfl, last⟩

/-- `build_records_newline` stays inside its buffer and replies what the
handler replies. -/
theorem writeRecordsNewline_eq (junk : Nat → UInt8) (call : Call)
    (ids : List Bytes) (tick : Nat) (store : Store) :
    writeRecordsNewline junk call ids tick store =
      some (buildRecordsNewline call ids tick store) := by
  rw [writeRecordsNewline, buildRecordsNewline]
  by_cases none : ids.length = 0
  · rw [if_pos none, List.eq_nil_of_length_eq_zero none]
    simp [buildRecords, Store.setHash]
  · obtain ⟨after, wrote, filled⟩ := (filled_fresh junk).writeRecords junk
      call.flags.enableTtl call.world.now ids tick
      (store.tables.hashes .hash3)
    rw [if_neg none, wrote, Option.map_some]
    rw [List.nil_append] at filled
    dsimp only
    have length := congrArg List.length filled.text
    rw [List.length_take, Nat.min_eq_left filled.inside] at length
    rw [filled.written, filled.text, length]
    rfl

/-- `GETIDXREC` with its loop and its buffer is the handler. -/
theorem writeGetidxrec_eq (junk : Nat → UInt8) (call : Call)
    (store : Store) :
    writeGetidxrec junk call store = some (cmdGetidxrec call store) := by
  rw [writeGetidxrec, cmdGetidxrec]
  dsimp only
  generalize (foundOf (store.operate call (.hash .hash4)
    (.get (call.world.now 0) (call.arg 1))).2).getD [] = list
  have scanned := idScan_ids list
  split_ifs with misused empty many
  · rfl
  · rfl
  · revert scanned
    cases idScan list with
    | none => exact fun _ => rfl
    | some scan => exact fun scanned => absurd many (by omega)
  · revert scanned
    cases idScan list with
    | none => exact fun more => absurd more many
    | some scan =>
        rintro ⟨ids, -⟩
        dsimp only
        rw [writeRecordsNewline_eq, ids]

/-! ## What `GETIDXREC` answers -/

/-- The record of an id, unless it is empty. -/
def recordAt (values : Bytes → Option Bytes) (id : Bytes) : Option Bytes :=
  (values id).filter (fun record => decide (record ≠ []))

/-- The records of some ids, without the empty ones. -/
def recordsAt (values : Bytes → Option Bytes) (ids : List Bytes) :
    List Bytes :=
  ids.filterMap (recordAt values)

theorem recordsAt_cons (values : Bytes → Option Bytes) (id : Bytes)
    (ids : List Bytes) :
    recordsAt values (id :: ids) =
      if ((values id).getD []).length = 0 then recordsAt values ids
      else (values id).getD [] :: recordsAt values ids := by
  rw [recordsAt, recordsAt]
  cases found : values id with
  | none =>
      have none : recordAt values id = none := by
        rw [recordAt, found]
        rfl
      rw [List.filterMap_cons_none none]
      rfl
  | some record =>
      rw [Option.getD_some]
      by_cases empty : record = []
      · have none : recordAt values id = none := by
          rw [recordAt, found]
          exact Option.filter_some_neg (by simpa using empty)
        rw [List.filterMap_cons_none none, if_pos (by simpa using empty)]
      · have kept : recordAt values id = some record := by
          rw [recordAt, found]
          exact Option.filter_some_pos (by simpa using empty)
        rw [List.filterMap_cons_some kept, if_neg (by simpa using empty)]

/-- The answer with some records, one a line. -/
def recordsReply (records : List Bytes) : RespReply :=
  if records = [] then RespReply.plain .noExists
  else
    { status := .getOk
      body := some (joined 10 records)
      bodyLen := (joined 10 records).length }

/-- The answer of the handler, whose length is an `int`. -/
def recordsAnswer (records : List Bytes) : RespReply :=
  if records = [] then RespReply.plain .noExists
  else RespReply.bulk (joined 10 records)

/-- The handler gives the right length as long as an `int` holds it. -/
theorem recordsAnswer_iff (records : List Bytes) :
    recordsAnswer records = recordsReply records ↔
      (joined 10 records).length < 2 ^ 31 := by
  rw [recordsAnswer, recordsReply]
  by_cases none : records = []
  · rw [if_pos none, if_pos none, none]
    exact iff_of_true rfl (by decide)
  · rw [if_neg none, if_neg none, RespReply.bulk]
    simp only [RespReply.mk.injEq, true_and]
    constructor
    · intro same
      have most := (toInt32_bounds (joined 10 records).length).2
      omega
    · intro short
      exact toInt32_of_range (by omega) (by omega)

/-- In a table of lasting records the loop finds the record of every id. -/
theorem buildRecords_lasting {hash : KvsHash}
    {values : Bytes → Option Bytes} (table : Lasting hash values)
    (enableTtl : Bool) (now : Nat → Int) {ids : List Bytes}
    (strings : ∀ id ∈ ids, (0 : UInt8) ∉ id) (tick : Nat) :
    buildRecords enableTtl now ids tick hash =
      (hash, recordsAt values ids) := by
  induction ids generalizing tick with
  | nil => rfl
  | cons id ids induction =>
      have whole := cString_of_nulFree (strings id List.mem_cons_self)
      have rest := induction
        (fun other member => strings other (List.mem_cons_of_mem _ member))
        (tick + 1)
      rw [buildRecords, whole, table.get]
      dsimp only
      rw [rest, recordsAt_cons]

/-- What `GETIDXREC` replies when the records of some ids are asked for. -/
def getidxrecReply (records ids : List Bytes) : RespReply :=
  if maxListedIds < ids.length then RespReply.plain .error
  else recordsAnswer records

/-- The reply is the promised one while the array takes the ids and an `int`
holds the length of the records. -/
theorem getidxrecReply_iff (records ids : List Bytes) :
    getidxrecReply records ids = recordsReply records ↔
      ids.length ≤ maxListedIds ∧ (joined 10 records).length < 2 ^ 31 := by
  rw [getidxrecReply]
  split_ifs with many
  · refine iff_of_false ?_ (fun both => Nat.not_le_of_lt many both.1)
    rw [recordsReply]
    split_ifs <;> exact fun same => nomatch congrArg RespReply.status same
  · rw [recordsAnswer_iff, and_iff_right (Nat.le_of_not_lt many)]

/-- The records of a keyword are those of its ids. -/
theorem Tracks.getidxrec {log : List (Invocation × RespReply)}
    {globals : Globals Store} (tracks : Tracks log globals) {call : Call}
    (two : call.argc = 2)
    (plain : ∀ id ∈ addedIds (call.arg 1) log,
      (44 : UInt8) ∉ id ∧ (0 : UInt8) ∉ id) :
    cmdGetidxrec call globals.store =
      (globals.store,
        getidxrecReply
          (recordsAt (fun id => currentRecord id log)
            (addedIds (call.arg 1) log).eraseDups)
          (addedIds (call.arg 1) log).eraseDups) := by
  obtain ⟨values, table, texts⟩ := tracks.lists
  have filled := tracks.proper (call.arg 1)
  have free := fun id member => (plain id member).1
  have text := texts _ free
  have operated : globals.store.operate call (.hash .hash4)
        (.get (call.world.now 0) (call.arg 1)) =
      (globals.store.setHash .hash4 (globals.store.tables.hashes .hash4),
        .value (values (call.arg 1))) := by
    have got := table.get call.flags.enableTtl (call.world.now 0) (call.arg 1)
    have ran : globals.store.operate call (.hash .hash4)
          (.get (call.world.now 0) (call.arg 1)) =
        (globals.store.setHash .hash4
            (kvsHashGet call.flags.enableTtl (call.world.now 0)
              (globals.store.tables.hashes .hash4) (call.arg 1) 0).1,
          .value (kvsHashGet call.flags.enableTtl (call.world.now 0)
            (globals.store.tables.hashes .hash4) (call.arg 1) 0).2) := rfl
    rw [ran, got]
  have same : ∀ name,
      globals.store.setHash name (globals.store.tables.hashes name) =
        globals.store := by
    intro name
    simp only [Store.setHash, Function.update_eq_self]
  rw [cmdGetidxrec, if_neg (by simpa using two), operated, same, text]
  dsimp only [foundOf]
  by_cases none : addedIds (call.arg 1) log = []
  · rw [none]
    rfl
  · have long := listText_ne_nil filled none
    have ids : listedIds ((listText
          (addedIds (call.arg 1) log).eraseDups).getD []) =
        (addedIds (call.arg 1) log).eraseDups := by
      rw [listedIds, splitComma_eq, pieces_listText free none,
        List.filter_eq_self]
      intro id member
      exact decide_eq_true (List.length_pos_of_ne_nil
        (filled id (List.mem_eraseDups.mp member)))
    rw [if_neg (by simpa using long), ids, getidxrecReply]
    split_ifs with many
    · rfl
    · rw [buildRecordsNewline, buildRecords_lasting tracks.records]
      · dsimp only
        rw [same, recordsAnswer]
        simp only [List.length_eq_zero_iff]
        rfl
      · exact fun id member => (plain id (List.mem_eraseDups.mp member)).2

/-- Every write of `GETIDXREC` lies inside its buffer, and it joins the records
of the ids of its keyword exactly when its array takes the ids and an `int`
holds the length of the text. -/
theorem getidxrec_records (worlds : Nat → World) {inputs : List Invocation}
    (writes : ∀ input ∈ inputs, input.proc = .setrec ∨ input.proc = .setidx)
    (plain : ∀ input ∈ inputs, input.proc = .setidx →
      (44 : UInt8) ∉ input.call.arg 2 ∧ (0 : UInt8) ∉ input.call.arg 2)
    (junk : Nat → UInt8) {call : Call} (two : call.argc = 2) :
    let globals := (freshSession worlds).globals
    let log := history globals inputs
    let store := (run invoke globals inputs).1.store
    let ids := (addedIds (call.arg 1) log).eraseDups
    let records := recordsAt (fun id => currentRecord id log) ids
    ∃ reply, writeGetidxrec junk call store = some (store, reply) ∧
      (reply = recordsReply records ↔
        ids.length ≤ maxListedIds ∧ (joined 10 records).length < 2 ^ 31) := by
  intro globals log store ids records
  have tracks : Tracks log (run invoke globals inputs).1 :=
    (tracks_fresh worlds).run writes
  refine ⟨getidxrecReply records ids, ?_, getidxrecReply_iff records ids⟩
  rw [writeGetidxrec_eq]
  refine congrArg some (Tracks.getidxrec tracks two ?_)
  intro id member
  obtain ⟨event, inside, rfl⟩ := List.mem_map.mp member
  obtain ⟨origin, wrote⟩ := List.mem_filter.mp inside
  exact plain event.1 (List.of_mem_zip origin).1 (of_decide_eq_true wrote).1

/-- Two records under one keyword, and an id without a record. -/
def recordRun : List Invocation :=
  [invocationOf .setidx [ascii "SETIDX", ascii "w", ascii "a"],
    invocationOf .setidx [ascii "SETIDX", ascii "w", ascii "c"],
    invocationOf .setidx [ascii "SETIDX", ascii "w", ascii "b"],
    invocationOf .setrec [ascii "SETREC", ascii "b", ascii "two"],
    invocationOf .setrec [ascii "SETREC", ascii "a", ascii "one"]]

theorem getidxrec_records_two :
    (writeGetidxrec (fun _ => 0)
        (invocationOf .getidxrec [ascii "GETIDXREC", ascii "w"]).call
        (run invoke (freshSession (fun _ => default)).globals
          recordRun).1.store).map Prod.snd =
      some
        { status := .getOk
          body := some (ascii "one\ntwo")
          bodyLen := 7 } := by
  obtain ⟨reply, answer, exactly⟩ := @getidxrec_records (fun _ => default)
    recordRun (by decide +kernel) (by decide +kernel) (fun _ => 0)
    (invocationOf .getidxrec [ascii "GETIDXREC", ascii "w"]).call
    (by decide +kernel)
  rw [answer, Option.map_some,
    exactly.mpr ⟨by decide +kernel, by decide +kernel⟩]
  decide +kernel

/-! ## More records than an `int` measures -/

/-- 129 ids of one byte. -/
def manyIds : List Bytes :=
  (List.range 129).map (fun number => [UInt8.ofNat (number + 64)])

theorem manyIds_nodup : manyIds.Nodup := by
  refine List.Nodup.map_on ?_ List.nodup_range
  intro number below other below' same
  rw [List.mem_range] at below below'
  have bytes := congrArg (fun id => (id.headD 0).toNat) same
  simp only [List.headD_cons, UInt8.toNat_ofNat'] at bytes
  omega

/-- The same record under all the ids, and all of them under one keyword. -/
def bulkyRun (record : Bytes) : List Invocation :=
  manyIds.map (fun id => invocationOf .setrec [ascii "SETREC", id, record]) ++
    manyIds.map (fun id =>
      invocationOf .setidx [ascii "SETIDX", ascii "w", id])

/-- The calls of a run have the arguments that were sent. -/
theorem arrived_invocationOf {args : List Bytes}
    (small : (respEncode args).length < 2 ^ 31) (proc : Proc) :
    Arrived (invocationOf proc args).call.mem
      (invocationOf proc args).call.req args :=
  arrived_encode (holds_self _) small

/-- Frames of three arguments with at most 16 MiB. -/
theorem respEncode_three_small {name key value : Bytes}
    (short : name.length < 2 ^ 24) (short' : key.length < 2 ^ 24)
    (short'' : value.length < 2 ^ 24) :
    (respEncode [name, key, value]).length < 2 ^ 31 := by
  have digits : ∀ {number : Nat}, number < 2 ^ 24 →
      (decimal number).length ≤ 10 :=
    fun below => (decimal_length_le_iff (by decide) _).mpr (by omega)
  have first := digits short
  have second := digits short'
  have third := digits short''
  have count := @digits (0 + 1 + 1 + 1) (by decide)
  simp only [respEncode, respBulks_cons, List.length_append,
    respHeader_length, respBulk_length, List.length_cons, List.length_nil]
  simp only [respBulks, List.map_nil, List.flatten_nil, List.length_nil]
  omega

theorem joined_replicate_length (record : Bytes) (count : Nat) :
    (joined 10 (List.replicate (count + 1) record)).length =
      (count + 1) * record.length + count := by
  induction count with
  | zero => simp [joined]
  | succ count induction =>
      rw [List.replicate_succ, List.replicate_succ, joined_cons_cons,
        ← List.replicate_succ, List.length_append, List.length_cons,
        induction]
      ring

section Bulky

variable {record : Bytes} (short : record.length < 2 ^ 24)

include short

/-- The calls of the two kinds. -/
theorem bulkyRun_calls {id : Bytes} (member : id ∈ manyIds) :
    Arrived (invocationOf .setrec [ascii "SETREC", id, record]).call.mem
        (invocationOf .setrec [ascii "SETREC", id, record]).call.req
        [ascii "SETREC", id, record] ∧
      Arrived (invocationOf .setidx [ascii "SETIDX", ascii "w", id]).call.mem
        (invocationOf .setidx [ascii "SETIDX", ascii "w", id]).call.req
        [ascii "SETIDX", ascii "w", id] := by
  have one : ∀ id ∈ manyIds, id.length < 2 ^ 24 := by decide +kernel
  exact ⟨arrived_invocationOf (respEncode_three_small (by decide)
      (one id member) short) _,
    arrived_invocationOf (respEncode_three_small (by decide) (by decide)
      (one id member)) _⟩

theorem sound_bulkyRun : ∀ input ∈ bulkyRun record, Sound input := by
  have plain : ∀ id ∈ manyIds, id ≠ [] ∧ (44 : UInt8) ∉ id := by
    decide +kernel
  intro input member
  rcases List.mem_append.mp member with stores | lists
  · obtain ⟨id, inside, rfl⟩ := List.mem_map.mp stores
    obtain ⟨call, -⟩ := bulkyRun_calls short inside
    exact ⟨Or.inl rfl, call.argc, fun other => nomatch other⟩
  · obtain ⟨id, inside, rfl⟩ := List.mem_map.mp lists
    obtain ⟨-, call⟩ := bulkyRun_calls short inside
    refine ⟨Or.inr rfl, call.argc, fun _ => ?_⟩
    rw [arg_eq call]
    exact plain id inside

/-- All the ids are listed. -/
theorem addedIds_bulkyRun :
    addedIds (ascii "w") (accepted (bulkyRun record)) = manyIds := by
  rw [addedIds, written_accepted, bulkyRun, List.filter_append]
  have others : ∀ input ∈ manyIds.map
      (fun id => invocationOf .setrec [ascii "SETREC", id, record]),
      ¬ decide (input.proc = .setidx ∧ input.call.arg 1 = ascii "w") =
        true := by
    intro input member
    obtain ⟨id, -, rfl⟩ := List.mem_map.mp member
    intro own
    cases (of_decide_eq_true own).1
  have own : ∀ input ∈ manyIds.map
      (fun id => invocationOf .setidx [ascii "SETIDX", ascii "w", id]),
      decide (input.proc = .setidx ∧ input.call.arg 1 = ascii "w") =
        true := by
    intro input member
    obtain ⟨id, inside, rfl⟩ := List.mem_map.mp member
    exact decide_eq_true
      ⟨rfl, arg_eq (bulkyRun_calls short inside).2 1⟩
  rw [List.filter_eq_nil_iff.mpr others, List.filter_eq_self.mpr own,
    List.nil_append, List.map_map]
  exact (List.map_congr_left (fun id inside =>
    arg_eq (bulkyRun_calls short inside).2 2)).trans (List.map_id _)

/-- Every id has the record. -/
theorem currentRecord_bulkyRun {id : Bytes} (member : id ∈ manyIds) :
    currentRecord id (accepted (bulkyRun record)) = some record := by
  have values : ∀ value ∈ written .setrec id (accepted (bulkyRun record)),
      value = record := by
    intro value wrote
    rw [written_accepted] at wrote
    obtain ⟨input, inside, rfl⟩ := List.mem_map.mp wrote
    obtain ⟨sent, own⟩ := List.mem_filter.mp inside
    have proc := (of_decide_eq_true own).1
    rcases List.mem_append.mp sent with stores | lists
    · obtain ⟨other, here, rfl⟩ := List.mem_map.mp stores
      exact arg_eq (bulkyRun_calls short here).1 2
    · obtain ⟨other, -, rfl⟩ := List.mem_map.mp lists
      cases proc
  have some : record ∈ written .setrec id (accepted (bulkyRun record)) := by
    rw [written_accepted]
    refine List.mem_map.mpr
      ⟨invocationOf .setrec [ascii "SETREC", id, record], ?_,
        arg_eq (bulkyRun_calls short member).1 2⟩
    refine List.mem_filter.mpr
      ⟨List.mem_append_left _ (List.mem_map.mpr ⟨id, member, rfl⟩), ?_⟩
    exact decide_eq_true
      ⟨rfl, arg_eq (bulkyRun_calls short member).1 1⟩
  rw [currentRecord, List.getLast?_eq_some_getLast
    (List.ne_nil_of_mem some)]
  exact congrArg Option.some (values _ (List.getLast_mem _))

/-- A fresh server. -/
def bulkyStart : Globals Store :=
  (freshSession (fun _ => default)).globals

theorem history_bulkyRun :
    history bulkyStart (bulkyRun record) = accepted (bulkyRun record) := by
  refine @Tracks.run_accepted [] _ (tracks_fresh (fun _ => default)) _ ?_ ?_
  · rw [List.nil_append]
    exact sound_bulkyRun short
  · rw [List.nil_append, bulkyRun, List.length_append, List.length_map,
      List.length_map, show manyIds.length = 129 by decide +kernel, slotLimit]
    omega

theorem tracks_bulkyRun :
    Tracks (accepted (bulkyRun record))
      (run invoke bulkyStart (bulkyRun record)).1 := by
  have tracks := (tracks_fresh (fun _ => default)).run
    (fun input member => (sound_bulkyRun short input member).proc)
  rw [List.nil_append] at tracks
  rw [← history_bulkyRun short]
  exact tracks

theorem ids_bulkyRun :
    (addedIds (ascii "w") (history bulkyStart (bulkyRun record))).eraseDups =
      manyIds := by
  rw [history_bulkyRun short, addedIds_bulkyRun short,
    eraseDups_of_nodup manyIds_nodup]

theorem records_bulkyRun (filled : record ≠ []) :
    recordsAt
        (fun id => currentRecord id (history bulkyStart (bulkyRun record)))
        manyIds =
      List.replicate 129 record := by
  have found : ∀ id ∈ manyIds,
      recordAt
          (fun id => currentRecord id (history bulkyStart (bulkyRun record)))
          id =
        some record := by
    intro id member
    rw [recordAt, history_bulkyRun short, currentRecord_bulkyRun short member]
    exact Option.filter_some_pos (by simpa using filled)
  have mapped := List.filterMap_congr found
  rw [recordsAt, mapped]
  exact (congrFun (@List.filterMap_eq_map _ _ (fun _ => record)) _).trans
    ((List.map_const' ..).trans (by
      rw [show manyIds.length = 129 by decide +kernel]))

/-- What `GETIDXREC` replies behind the run. -/
theorem reply_bulkyRun (filled : record ≠ []) :
    writeGetidxrec (fun _ => 0)
        (invocationOf .getidxrec [ascii "GETIDXREC", ascii "w"]).call
        (run invoke bulkyStart (bulkyRun record)).1.store =
      some ((run invoke bulkyStart (bulkyRun record)).1.store,
        RespReply.bulk (joined 10 (List.replicate 129 record))) := by
  have plain : ∀ id ∈ manyIds, (44 : UInt8) ∉ id ∧ (0 : UInt8) ∉ id := by
    decide +kernel
  have keyword : (invocationOf .getidxrec
      [ascii "GETIDXREC", ascii "w"]).call.arg 1 = ascii "w" := by
    decide +kernel
  have reply := @Tracks.getidxrec _ _ (tracks_bulkyRun short)
    (invocationOf .getidxrec [ascii "GETIDXREC", ascii "w"]).call
    (by decide +kernel)
  rw [keyword, addedIds_bulkyRun short] at reply
  have ids := ids_bulkyRun short
  have records := records_bulkyRun short filled
  rw [history_bulkyRun short] at records ids
  rw [addedIds_bulkyRun short] at ids
  rw [writeGetidxrec_eq, reply plain, ids, records, getidxrecReply,
    if_neg (by decide +kernel), recordsAnswer, if_neg (by simp)]

end Bulky

/-- A record that fills a frame of 16 MiB. -/
def bulkyRecord : Bytes :=
  List.replicate 16777000 120

/-- With 129 records of nearly 16 MiB the length of the reply is negative. -/
theorem getidxrec_overflows :
    let log := history bulkyStart (bulkyRun bulkyRecord)
    let ids := (addedIds (ascii "w") log).eraseDups
    let records := recordsAt (fun id => currentRecord id log) ids
    let store := (run invoke bulkyStart (bulkyRun bulkyRecord)).1.store
    ids = manyIds ∧ records = List.replicate 129 bulkyRecord ∧
      ∃ reply, writeGetidxrec (fun _ => 0)
          (invocationOf .getidxrec [ascii "GETIDXREC", ascii "w"]).call
          store = some (store, reply) ∧
        reply.bodyLen = -2130734168 ∧ reply ≠ recordsReply records := by
  intro log ids records store
  have size : bulkyRecord.length = 16777000 := List.length_replicate
  have short : bulkyRecord.length < 2 ^ 24 := by omega
  have filled : bulkyRecord ≠ [] := by
    intro empty
    rw [empty] at size
    cases size
  have listed : ids = manyIds := ids_bulkyRun short
  have stored : records = List.replicate 129 bulkyRecord := by
    change recordsAt _ ids = _
    rw [listed]
    exact records_bulkyRun short filled
  have total : (joined 10 (List.replicate 129 bulkyRecord)).length =
      2164233128 := by
    rw [joined_replicate_length bulkyRecord 128, size]
  have narrowed : (RespReply.bulk (joined 10
      (List.replicate 129 bulkyRecord))).bodyLen = -2130734168 := by
    simp only [RespReply.bulk]
    rw [total]
    decide +kernel
  refine ⟨listed, stored, _, reply_bulkyRun short filled, narrowed, ?_⟩
  intro same
  have promised := congrArg RespReply.bodyLen same
  rw [narrowed, stored, recordsReply, if_neg (by simp)] at promised
  simp only [total] at promised
  cases promised

end Kivo.Server.IndexedRecords
