import Kivo.Engine.Maps
import Kivo.Server.Readings

/-!
# What a frame reads of its buffer

A request points into the receive buffer, and what stands behind its frame is
whatever came last: the next commands of a pipeline, or bytes of an earlier
read.  Slices and keywords end where their lengths say.  A number ends where
`atoll` finds a byte it cannot use, and the carriage return behind an argument
is such a byte only once the number has begun: in front of a number it is
skipped.

This module compares the execution of one canonical frame in two buffers that
differ behind it.  It is the same unless the command reads a number from its
last argument and that argument is blank.
-/

namespace Kivo.Server.FrameReads

open Kivo.Clib.Memory
open Kivo.Clib.Numeral
open Kivo.Engine.KeyMap
open Kivo.Engine.ArrayEngine
open Kivo.Engine.HashTable (slotLimit)
open Kivo.Engine.Maps
open Kivo.Engine.SkipEngine
open Kivo.Engine.SkipRuns (Level)
open Kivo.Engine.Store
open Kivo.Resp.Frame
open Kivo.Resp.Canonical
open Kivo.Resp.Reply
open Kivo.Resp.Stream
open Kivo.Server.State
open Kivo.Server.Expire
open Kivo.Server.Commands
open Kivo.Server.CommandTable
open Kivo.Server.Requests
open Kivo.Server.Alignment
open Kivo.Server.Changes
open Kivo.Server.Readings

/-! ## Last arguments -/

/-- `parse_ttl` reads a number from the last argument. -/
def TimedByLast (flags : Flags) (args : List Bytes) : Prop :=
  flags.enableTtl = true ∧
    (args.length = 4 ∨
      args.length = 5 ∧
        (sameName (args.getD 3 []) (ascii "EX") = true ∨
          sameName (args.getD 3 []) (ascii "PX") = true))

/-- A range command takes its bound from the last argument. -/
def RangedByLast (args : List Bytes) : Prop :=
  args.length = 3 ∧ strtoll (args.getD 1 []) = 0

/-- What a command does depends on a number in its last argument. -/
def ReadsLast (flags : Flags) (args : List Bytes) : Proc → Prop
  | .arraySet => TimedByLast flags args
  | .rbtreeSet => TimedByLast flags args
  | .hashSet => TimedByLast flags args
  | .skipSet => TimedByLast flags args
  | .setctx => args.length = 4
  | .zrange => RangedByLast args
  | .zrangerec => RangedByLast args
  | _ => False

/-- The command reads a number from its last argument, and the argument is
blank. -/
def Overruns (flags : Flags) (args : List Bytes) : Prop :=
  ∃ command, commandNamed (args.getD 0 []) = some command ∧
    ReadsLast flags args command.proc ∧
    Blank (args.getD (args.length - 1) [])

/-- The frame does the same to the store and gives the same reply in any two
buffers that differ behind it. -/
def Confined (flags : Flags) (args : List Bytes) : Prop :=
  ∀ (fd : Int) (front rest other : Bytes) (session : Session Store),
    let after := fun behind =>
      serveCommand (commandLayer flags) flags fd
        (front ++ (respEncode args ++ behind)) front.length
        (respEncode args).length session
    (after rest).globals.store = (after other).globals.store ∧
      (after rest).wbuf = (after other).wbuf

/-! ## Numbers inside the frame -/

section Arrived

variable {call : Call} {args : List Bytes}
  (arrived : Arrived call.mem call.req args)

include arrived

theorem argIs_eq (index : Nat) (keyword : Bytes) :
    call.argIs index keyword = sameName (args.getD index []) keyword :=
  arrived.nameIs_eq index keyword

theorem argc_eq : call.argc = args.length :=
  arrived.argc

theorem mem_settingNumbers {index : Nat}
    (inside : index ∈ settingNumbers call) :
    index < args.length ∧
      (index + 1 = args.length → TimedByLast call.flags args) := by
  obtain ⟨enough, timed⟩ := mem_readUnless.mp inside
  rw [decide_eq_false_iff_not, argc_eq arrived] at enough
  by_cases enabled : call.flags.enableTtl = true
  · rw [if_pos enabled, ttlNumbers, argc_eq arrived, argIs_eq arrived,
      argIs_eq arrived] at timed
    by_cases few : (args.length : Int) < 4
    · rw [if_pos few] at timed
      exact absurd timed List.not_mem_nil
    · rw [if_neg few] at timed
      split_ifs at timed with word
      · rw [List.mem_singleton.mp timed]
        refine ⟨by omega, fun last => ⟨enabled, Or.inr ⟨last.symm, word.2⟩⟩⟩
      · rw [List.mem_singleton.mp timed]
        exact ⟨by omega, fun last => ⟨enabled, Or.inl last.symm⟩⟩
  · rw [if_neg enabled] at timed
    exact absurd timed List.not_mem_nil

theorem mem_rangeNumbers {index : Nat}
    (inside : index ∈ rangeNumbers call) :
    index < args.length ∧
      (index + 1 = args.length → RangedByLast args) := by
  obtain ⟨exactly, member⟩ := mem_readUnless.mp inside
  rw [decide_eq_false_iff_not, argc_eq arrived, not_not] at exactly
  have three : args.length = 3 := Int.ofNat_inj.mp exactly
  rcases List.mem_cons.mp member with rfl | second
  · exact ⟨by omega, fun last => by omega⟩
  · obtain ⟨zero, member⟩ := mem_readUnless.mp second
    rw [decide_eq_false_iff_not, not_not, Call.number,
      arrived.number_inner (by omega)] at zero
    rw [List.mem_singleton.mp member]
    exact ⟨by omega, fun _ => ⟨three, zero⟩⟩

/-- Every number that matters lies inside the request, and in the last
argument only where the command reads it. -/
theorem mem_numbers {proc : Proc} {index : Nat}
    (inside : index ∈ Proc.numbers call proc) :
    index < args.length ∧
      (index + 1 = args.length → ReadsLast call.flags args proc) := by
  cases proc with
  | arraySet => exact mem_settingNumbers arrived inside
  | rbtreeSet => exact mem_settingNumbers arrived inside
  | hashSet => exact mem_settingNumbers arrived inside
  | skipSet => exact mem_settingNumbers arrived inside
  | zrange => exact mem_rangeNumbers arrived inside
  | zrangerec => exact mem_rangeNumbers arrived inside
  | setctx =>
      obtain ⟨enough, member⟩ := mem_readUnless.mp inside
      rw [decide_eq_false_iff_not, argc_eq arrived] at enough
      rw [List.mem_singleton.mp member]
      exact ⟨by omega, fun last => last.symm⟩
  | zadd =>
      obtain ⟨exactly, member⟩ := mem_readUnless.mp inside
      rw [decide_eq_false_iff_not, argc_eq arrived, not_not] at exactly
      rw [List.mem_singleton.mp member]
      exact ⟨by omega, fun last => by omega⟩
  | _ => exact absurd inside List.not_mem_nil

/-- A number is the one its argument spells, unless the argument is blank and
the last one. -/
theorem number_eq {index : Nat} (bounded : index < args.length)
    (begun : index + 1 = args.length → ¬ Blank (args.getD index [])) :
    call.number index = strtoll (args.getD index []) := by
  by_cases last : index + 1 = args.length
  · exact arrived.number_begun bounded (begun last)
  · exact arrived.number_inner (by omega)

end Arrived

/-! ## Two runs of one frame -/

section Runs

variable {flags : Flags} {fd : Int} {mem other : Bytes} {req : RespRequest}
  {args : List Bytes} (here : Arrived mem req args)
  (there : Arrived other req args)

include here there

theorem noteSlave_alike (repl : ReplState) :
    noteSlave flags mem req fd repl = noteSlave flags other req fd repl := by
  rw [noteSlave, noteSlave,
    here.requestIs_eq (show ascii "RDMA_CONNECT" ≠ [] by decide),
    there.requestIs_eq (show ascii "RDMA_CONNECT" ≠ [] by decide),
    here.requestIs_eq (show ascii "SYNC" ≠ [] by decide),
    there.requestIs_eq (show ascii "SYNC" ≠ [] by decide)]

theorem pingReply_alike : pingReply mem req = pingReply other req := by
  have first : req.arg mem 1 = req.arg other 1 :=
    (here.slice_eq 1).trans (there.slice_eq 1).symm
  rw [pingReply, pingReply, first]

theorem prepared_alike (globals : Globals Store) :
    prepared flags fd mem req args globals =
      prepared flags fd other req args globals := by
  rw [prepared, prepared, noteSlave_alike here there]

theorem kvsExecuteBatch_alike (spelled : ¬ Overruns flags args)
    (globals : Globals Store) :
    kvsExecuteBatch flags globals mem req (commandNamed (args.getD 0 [])) =
      kvsExecuteBatch flags globals other req
        (commandNamed (args.getD 0 [])) := by
  cases found : commandNamed (args.getD 0 []) with
  | none => rfl
  | some command =>
      let left := nextCall flags globals mem req
      let right := nextCall flags globals other req
      have leftArrived : Arrived left.mem left.req args := here
      have rightArrived : Arrived right.mem right.req args := there
      refine @Proc.run_alike command.proc left right
        ⟨rfl, rfl, rfl, ?_, ?_, ?_⟩ (tick globals)
      · intro index _
        rw [arg_eq leftArrived, arg_eq rightArrived]
      · intro index _ keyword
        rw [argIs_eq leftArrived, argIs_eq rightArrived]
      · intro index inside
        obtain ⟨bounded, last⟩ := mem_numbers leftArrived inside
        have begun : index + 1 = args.length →
            ¬ Blank (args.getD index []) := by
          intro final blank
          refine spelled ⟨command, found, last final, ?_⟩
          rw [← final, Nat.add_sub_cancel]
          exact blank
        rw [number_eq leftArrived bounded begun,
          number_eq rightArrived bounded begun]

end Runs

/-- The whole session behind a frame is the same in both buffers. -/
theorem serveCommand_confined {flags : Flags} {mem other : Bytes}
    {address : Int} {args : List Bytes}
    (stored : Holds mem address (respEncode args))
    (again : Holds other address (respEncode args))
    (small : (respEncode args).length < 2 ^ 31)
    (spelled : ¬ Overruns flags args) (fd : Int)
    (session : Session Store) :
    serveCommand (commandLayer flags) flags fd mem address
        (respEncode args).length session =
      serveCommand (commandLayer flags) flags fd other address
        (respEncode args).length session := by
  have here := arrived_encode stored small
  have there := arrived_encode again small
  have args_eq := (respUnpackNoModify_args stored small).trans
    (respUnpackNoModify_args again small).symm
  have request : respUnpackNoModify other address (respEncode args).length =
      respUnpackNoModify mem address (respEncode args).length := by
    rw [respUnpackNoModify_encode stored small,
      respUnpackNoModify_encode again small]
  rw [request] at there args_eq
  by_cases special : sameName (args.getD 0 []) (ascii "PING") = true ∨
      (flags.enableReplMaster &&
        sameName (args.getD 0 []) (ascii "RDMA_CONNECT")) = true
  · have ping := (here.requestIs_eq (show ascii "PING" ≠ [] by decide))
    have rdma := here.requestIs_eq
      (show ascii "RDMA_CONNECT" ≠ [] by decide)
    have ping' := (there.requestIs_eq (show ascii "PING" ≠ [] by decide))
    have rdma' := there.requestIs_eq
      (show ascii "RDMA_CONNECT" ≠ [] by decide)
    rw [serveCommand, serveCommand]
    dsimp only
    rw [request, ping, rdma, ping', rdma', noteSlave_alike here there,
      pingReply_alike here there, args_eq]
    by_cases first : sameName (args.getD 0 []) (ascii "PING") = true
    · rw [if_pos first, if_pos first]
    · rw [if_neg first, if_neg first, if_pos (special.resolve_left first),
        if_pos (special.resolve_left first)]
  · obtain ⟨ping, rdma⟩ := not_or.mp special
    rw [Bool.not_eq_true] at ping rdma
    rw [serveCommand_encode flags fd stored small ping rdma,
      serveCommand_encode flags fd again small ping rdma]
    dsimp only
    rw [request, prepared_alike here there,
      kvsExecuteBatch_alike here there spelled, args_eq]

/-! ## Numbers behind the frame -/

theorem strtoll_skip {text : Bytes} (blank : Blank text) (rest : Bytes) :
    strtoll (text ++ rest) = strtoll rest := by
  rw [strtoll, strtoll, dropWhile_isSpace_of_blank blank]

/-- A blank last argument is read from what stands behind the frame. -/
theorem number_behind {flags : Flags} {mem : Bytes} {address : Int}
    {args : List Bytes} {text : Bytes} {more : Bytes}
    (stored : Holds mem address (respEncode args ++ (text ++ 13 :: more)))
    (small : (respEncode args).length < 2 ^ 31) (nonempty : 0 < args.length)
    (blank : Blank (args.getD (args.length - 1) []))
    (begun : ¬ Blank text) (globals : Globals Store) :
    (callOf flags mem address args globals).number (args.length - 1) =
      strtoll text := by
  have last : args.length - 1 + 1 = args.length := by omega
  rw [Call.number, callOf, nextCall,
    respUnpackNoModify_encode stored.left small]
  rw [respEncode, List.append_assoc] at stored
  have data := layout_stored stored.right
    (show args.length - 1 < args.length by omega)
  rw [last, List.drop_length, respBulks, List.map_nil, List.flatten_nil,
    List.nil_append] at data
  obtain ⟨_, rest, shape⟩ := data
  have split : args.getD (args.length - 1) [] ++
      13 :: 10 :: (text ++ 13 :: more) ++ rest =
      (args.getD (args.length - 1) [] ++ [13, 10]) ++
        (text ++ 13 :: (more ++ rest)) := by
    simp
  rw [atoll, ← shape, split, strtoll_skip]
  · exact strtoll_append begun (show DigitFree (13 :: (more ++ rest)) from rfl)
  · intro byte member
    rcases List.mem_append.mp member with old | new
    · exact blank byte old
    · rcases List.mem_pair.mp new with rfl | rfl <;> rfl

/-- The buffer with one frame and a number behind it. -/
def trailed (args : List Bytes) (text : Bytes) : Bytes :=
  [] ++ (respEncode args ++ (text ++ [13, 10]))

theorem trailed_stored (args : List Bytes) (text : Bytes) :
    Holds (trailed args text) 0 (respEncode args ++ (text ++ [13, 10])) :=
  ⟨Int.le_refl 0, List.prefix_rfl⟩

/-- A fresh server at time zero that meets a frame with a number behind it. -/
def metCall (flags : Flags) (args : List Bytes) (text : Bytes) : Call :=
  callOf flags (trailed args text) 0 args
    (freshSession (fun _ => default)).globals

section Overrun

variable {flags : Flags} {args : List Bytes} {text : Bytes}
  (small : (respEncode args).length < 2 ^ 31)

include small

theorem metCall_arrived :
    Arrived (metCall flags args text).mem (metCall flags args text).req
      args :=
  arrived_encode (trailed_stored args text).left small

theorem metCall_number (nonempty : 0 < args.length)
    (blank : Blank (args.getD (args.length - 1) []))
    (begun : ¬ Blank text) :
    (metCall flags args text).number (args.length - 1) = strtoll text :=
  number_behind (trailed_stored args text) small nonempty blank begun _

/-- The time of `parse_ttl` comes from behind the frame. -/
theorem parseTtl_behind (timed : TimedByLast flags args)
    (blank : Blank (args.getD (args.length - 1) []))
    (begun : ¬ Blank text) :
    (strtoll text = 0 → parseTtl (metCall flags args text) = 0) ∧
      (strtoll text = 5 → 0 < parseTtl (metCall flags args text)) := by
  have arrived := @metCall_arrived flags args text small
  have clock : (metCall flags args text).world.now 0 = 0 := rfl
  have number := @metCall_number flags args text small
    (by rcases timed.2 with four | five <;> omega) blank begun
  rw [parseTtl, argc_eq arrived, argIs_eq arrived, argIs_eq arrived, clock]
  rcases timed.2 with four | ⟨five, word⟩
  · rw [four] at number ⊢
    rw [if_neg (by omega), if_neg (fun long => absurd long.1 (by omega)),
      if_neg (fun long => absurd long.1 (by omega)), number]
    refine ⟨fun zero => ?_, fun five => ?_⟩
    · rw [zero]
      rfl
    · rw [five]
      decide
  · rw [five] at number ⊢
    rw [if_neg (by omega)]
    by_cases seconds : sameName (args.getD 3 []) (ascii "EX") = true
    · rw [if_pos ⟨by omega, seconds⟩, number]
      refine ⟨fun zero => ?_, fun five => ?_⟩
      · rw [zero]
        rfl
      · rw [five]
        decide
    · rw [if_neg (fun long => seconds long.2),
        if_pos ⟨by omega, word.resolve_left seconds⟩, number]
      refine ⟨fun zero => ?_, fun five => ?_⟩
      · rw [zero]
        rfl
      · rw [five]
        decide

/-- The time of `cmd_setctx` comes from behind the frame. -/
theorem contextExpire_behind (four : args.length = 4)
    (blank : Blank (args.getD (args.length - 1) []))
    (begun : ¬ Blank text) :
    (strtoll text = 0 → contextExpire (metCall flags args text) = 0) ∧
      (strtoll text = 5 → 0 < contextExpire (metCall flags args text)) := by
  have clock : (metCall flags args text).world.time = 0 := rfl
  have number := @metCall_number flags args text small (by omega) blank begun
  rw [four] at number
  rw [contextExpire, clock, number]
  refine ⟨fun zero => ?_, fun five => ?_⟩
  · rw [zero]
    rfl
  · rw [five]
    decide

/-- The bound of a range command comes from behind the frame. -/
theorem rangeCount_behind (ranged : RangedByLast args)
    (blank : Blank (args.getD (args.length - 1) []))
    (begun : ¬ Blank text) :
    (strtoll text = 0 → rangeCount (metCall flags args text) = some 1) ∧
      (strtoll text = -1 → rangeCount (metCall flags args text) = none) := by
  have number := @metCall_number flags args text small
    (by rw [ranged.1]; decide) blank begun
  rw [ranged.1] at number
  have start : (metCall flags args text).number 1 = 0 :=
    ((metCall_arrived small).number_inner (by rw [ranged.1]; decide)).trans
      ranged.2
  rw [rangeCount, start, number]
  refine ⟨fun zero => ?_, fun minus => ?_⟩
  · rw [zero]
    decide
  · rw [minus]
    decide

end Overrun

/-- An empty table has room. -/
theorem not_refuses_create (key : Bytes) (table : Table) :
    ¬ Refuses Tables.create key table := by
  cases table with
  | array => exact fun full => absurd full.2 (by decide)
  | rbtree => exact id
  | hash name => exact (show ¬ ((0 : Nat) = slotLimit) by decide)
  | skip => exact id

/-- A table tells two times apart. -/
theorem operate_set_inj {level : Level} {table : Table} {key value : Bytes}
    {expire other : Int}
    (same : (Tables.create.operate false level table
        (.set key value expire)).1 =
      (Tables.create.operate false level table (.set key value other)).1) :
    expire = other := by
  by_cases array : table = .array
  · subst array
    have items := congrArg (fun tables => tables.array.items) same
    exact (ArrayItem.mk.inj (List.singleton_inj.mp items)).2.2
  · have carried : ∀ time,
        Tables.map (Tables.create.operate false level table
          (.set key value time)).1 table key =
            some { value := value, expireTime := time } := by
      intro time
      have step := @operate_map Tables.create valid_create false level table
        (.set key value time)
        (fun _ => ⟨not_refuses_create _ _, fun lost => array lost.1⟩)
      exact (congrFun (Prod.ext_iff.mp step).1 key).trans (if_pos rfl)
    have found := (carried expire).symm.trans
      ((congrArg (fun tables => Tables.map tables table key) same).trans
        (carried other))
    exact (Item.mk.inj (Option.some.inj found)).2

/-! ## The frames that stay confined -/

section Differing

variable {flags : Flags} {args : List Bytes} {command : Command}
  (confined : Confined flags args)
  (small : (respEncode args).length < 2 ^ 31)
  (found : commandNamed (args.getD 0 []) = some command)

include confined small found

/-- A confined frame stores the same time whatever stands behind it. -/
theorem Confined.change_eq (timed : command.proc ∈ timedProcs)
    (text other : Bytes) :
    (Proc.change args (expireOf (metCall flags args text))
        (contextExpire (metCall flags args text)) command.proc).apply
        (default : World).level Tables.create =
      (Proc.change args (expireOf (metCall flags args other))
        (contextExpire (metCall flags args other)) command.proc).apply
        (default : World).level Tables.create := by
  have steady : Steady flags args := by
    refine Or.inr (fun stored here => ?_)
    rw [found] at here
    cases here
    exact timed
  have tables := fun behind => serveCommand_tables
    (trailed_stored args behind).left small 0 steady
    (freshSession (fun _ => default))
  have same := congrArg Store.tables
    (confined 0 [] (text ++ [13, 10]) (other ++ [13, 10])
      (freshSession (fun _ => default))).1
  have joined := (tables text).symm.trans (same.trans (tables other))
  rw [Call.after, Call.after, commandChange, commandChange, found] at joined
  exact joined

/-- A confined range command answers the same whatever stands behind it. -/
theorem Confined.reply_eq (text other : Bytes) :
    packReply (freshSession (fun _ => default)).wbuf
        (command.proc.run (metCall flags args text)
          (tick (prepared flags 0 (trailed args text)
            (metCall flags args text).req args
            (freshSession (fun _ => default)).globals))).2 =
      packReply (freshSession (fun _ => default)).wbuf
        (command.proc.run (metCall flags args other)
          (tick (prepared flags 0 (trailed args other)
            (metCall flags args other).req args
            (freshSession (fun _ => default)).globals))).2 := by
  have special : ¬ (sameName (args.getD 0 []) (ascii "PING") = true ∨
      (flags.enableReplMaster &&
        sameName (args.getD 0 []) (ascii "RDMA_CONNECT")) = true) := by
    intro special
    rw [(special_foreign special).1] at found
    cases found
  obtain ⟨ping, rdma⟩ := not_or.mp special
  rw [Bool.not_eq_true] at ping rdma
  have wbuf := fun behind => congrArg Session.wbuf
    (serveCommand_encode flags 0 (trailed_stored args behind).left small
      ping rdma (freshSession (fun _ => default)))
  have same := (confined 0 [] (text ++ [13, 10]) (other ++ [13, 10])
    (freshSession (fun _ => default))).2
  have joined := (wbuf text).symm.trans (same.trans (wbuf other))
  simp only [found, kvsExecuteBatch, nextCall, prepared_store] at joined
  exact joined

end Differing

/-- The range commands on an empty time index. -/
theorem range_reply {call : Call} {globals : Globals Store} {proc : Proc}
    (range : proc = .zrange ∨ proc = .zrangerec)
    (three : call.argc = 3) (fresh : globals.store.tables = Tables.create) :
    (rangeCount call = some 1 →
        (proc.run call globals).2 = RespReply.plain .noExists) ∧
      (rangeCount call = none →
        (proc.run call globals).2 = RespReply.plain .parseError) := by
  have goesOn : ¬ call.argc ≠ 3 := not_not.mpr three
  have none : kvsZsetRecent globals.store.tables.skip 1 = some [] := by
    rw [fresh]
    decide +kernel
  have ranges : ∀ answer,
      (rangeCount call = some 1 →
          (ranging answer call globals.store).2 =
            RespReply.plain .noExists) ∧
        (rangeCount call = Option.none →
          (ranging answer call globals.store).2 =
            RespReply.plain .parseError) := by
    intro answer
    rw [ranging, if_neg goesOn]
    refine ⟨fun count => ?_, fun count => ?_⟩
    · rw [count]
      dsimp only
      rw [if_neg (by decide), none]
      rfl
    · rw [count]
      rfl
  rcases range with rfl | rfl
  · exact ranges _
  · exact ranges _

theorem settingChange_inj {bound : Nat} {args : List Bytes} {level : Level}
    {table : Table} {expire other : Int} (enough : ¬ args.length < bound)
    (same : (settingChange (decide (args.length < bound)) table args
        expire).apply level Tables.create =
      (settingChange (decide (args.length < bound)) table args other).apply
        level Tables.create) :
    expire = other := by
  have goesOn : ¬ decide (args.length < bound) = true := by
    rw [decide_eq_true_iff]
    exact enough
  rw [settingChange, settingChange, Change.unless, Change.unless,
    if_neg goesOn, if_neg goesOn] at same
  exact operate_set_inj same

theorem not_blank_digits :
    ¬ Blank (ascii "0") ∧ ¬ Blank (ascii "5") ∧ ¬ Blank (ascii "-1") := by
  decide

section Blank

variable {flags : Flags} {args : List Bytes} {command : Command}
  (small : (respEncode args).length < 2 ^ 31)
  (blank : Blank (args.getD (args.length - 1) []))

include small blank

/-- The two times that a setting handler reads behind the frame. -/
theorem expireOf_behind (timed : TimedByLast flags args) :
    expireOf (metCall flags args (ascii "0")) ≠
      expireOf (metCall flags args (ascii "5")) := by
  have enabled : ∀ text,
      (metCall flags args text).flags.enableTtl = true := fun _ => timed.1
  obtain ⟨zero, five, _⟩ := not_blank_digits
  have positive := (parseTtl_behind small timed blank five).2 (by decide)
  rw [expireOf, expireOf, if_pos (enabled _), if_pos (enabled _),
    (parseTtl_behind small timed blank zero).1 (by decide)]
  omega

/-- The two times that `cmd_setctx` reads behind the frame. -/
theorem contextExpire_ne (four : args.length = 4) :
    contextExpire (metCall flags args (ascii "0")) ≠
      contextExpire (metCall flags args (ascii "5")) := by
  obtain ⟨zero, five, _⟩ := not_blank_digits
  have positive : 0 < contextExpire (metCall flags args (ascii "5")) :=
    (contextExpire_behind small four blank five).2 (by decide)
  rw [(contextExpire_behind small four blank zero).1 (by decide)]
  omega

/-- The two replies of a range command. -/
theorem not_confined_ranged
    (found : commandNamed (args.getD 0 []) = some command)
    (range : command.proc = .zrange ∨ command.proc = .zrangerec)
    (ranged : RangedByLast args) :
    ¬ Confined flags args := by
  intro confined
  obtain ⟨zero, _, minus⟩ := not_blank_digits
  have reply := confined.reply_eq small found (ascii "0") (ascii "-1")
  have argc : ∀ text, (metCall flags args text).argc = 3 := by
    intro text
    rw [argc_eq (metCall_arrived small), ranged.1]
    rfl
  have fresh : ∀ text,
      (tick (prepared flags 0 (trailed args text)
        (metCall flags args text).req args
        (freshSession (fun _ => default)).globals)).store.tables =
          Tables.create :=
    fun text => congrArg Store.tables (prepared_store ..)
  rw [(range_reply range (argc _) (fresh (ascii "0"))).1
      ((rangeCount_behind small ranged blank zero).1 (by decide)),
    (range_reply range (argc _) (fresh (ascii "-1"))).2
      ((rangeCount_behind small ranged blank minus).2 (by decide))] at reply
  exact absurd reply (by decide)

end Blank

/-- A frame whose command reads a blank last argument takes its number from
behind the frame. -/
theorem not_confined {flags : Flags} {args : List Bytes}
    (small : (respEncode args).length < 2 ^ 31)
    (overruns : Overruns flags args) :
    ¬ Confined flags args := by
  intro confined
  obtain ⟨⟨name, proc⟩, found, last, blank⟩ := overruns
  have same := fun (member : proc ∈ timedProcs) =>
    confined.change_eq small found member (ascii "0") (ascii "5")
  have setting : ∀ table, TimedByLast flags args →
      (settingChange (decide (args.length < 3)) table args
          (expireOf (metCall flags args (ascii "0")))).apply
          (default : World).level Tables.create ≠
        (settingChange (decide (args.length < 3)) table args
          (expireOf (metCall flags args (ascii "5")))).apply
          (default : World).level Tables.create := by
    intro table timed equal
    exact expireOf_behind small blank timed (settingChange_inj
      (by rcases timed.2 with four | five <;> omega) equal)
  cases proc with
  | arraySet => exact setting .array last (same (by decide))
  | rbtreeSet => exact setting .rbtree last (same (by decide))
  | hashSet => exact setting (.hash .hash) last (same (by decide))
  | skipSet => exact setting .skip last (same (by decide))
  | setctx =>
      have four : args.length = 4 := last
      exact contextExpire_ne small blank four
        (settingChange_inj (by omega) (same (by decide)))
  | zrange =>
      exact not_confined_ranged small blank found (Or.inl rfl) last confined
  | zrangerec =>
      exact not_confined_ranged small blank found (Or.inr rfl) last confined
  | _ => exact last

/-- A canonical frame does the same in any two buffers that differ behind it
unless its command reads a number from a blank last argument. -/
theorem frame_confined_iff {flags : Flags} {args : List Bytes}
    (small : (respEncode args).length < 2 ^ 31) :
    Confined flags args ↔ ¬ Overruns flags args := by
  refine ⟨fun confined overruns => not_confined small overruns confined, ?_⟩
  intro spelled fd front rest other session
  have same := serveCommand_confined (Holds.of_append front _ rest)
    (Holds.of_append front _ other) small spelled fd session
  exact ⟨congrArg (fun after => after.globals.store) same,
    congrArg Session.wbuf same⟩

/-- `ZRANGE 0 9` reads its own numbers. -/
theorem frame_confined_zrange :
    Confined plainFlags [ascii "ZRANGE", ascii "0", ascii "9"] := by
  refine (frame_confined_iff (by decide)).mpr ?_
  rintro ⟨command, found, last, blank⟩
  exact absurd blank (by decide)

/-- `SETCTX k v` with an empty time: what stands behind the frame becomes the
time. -/
theorem frame_unconfined :
    ¬ Confined plainFlags [ascii "SETCTX", ascii "k", ascii "v", []] := by
  refine not_confined (by decide) ⟨⟨ascii "SETCTX", .setctx⟩, ?_, rfl, ?_⟩
  · decide +kernel
  · decide

end Kivo.Server.FrameReads
