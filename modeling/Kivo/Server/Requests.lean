import Kivo.Server.CommandLookup

/-!
# Requests that arrived as canonical frames

A handler reads its request through addresses.  For the request of a canonical
frame these readings are functions of the argument list: slices are the
arguments, comparisons with keywords compare arguments, and the name is looked
up by its bytes.  A number is the number its argument spells, unless the
argument is blank and the last one: then `atoll` reads on behind the frame.
-/

namespace Kivo.Server.Requests

open Kivo.Clib.Memory
open Kivo.Clib.Numeral
open Kivo.Resp.Frame
open Kivo.Resp.Canonical
open Kivo.Resp.Stream
open Kivo.Server.State
open Kivo.Server.CommandLookup
open Kivo.Server.CommandTable
open Kivo.Server.Commands

/-! ## Arguments -/

/-- The request points at the arguments of a canonical frame. -/
structure Arrived (mem : Bytes) (req : RespRequest) (args : List Bytes) :
    Prop where
  argc : req.argc = args.length
  lengths : ∀ index,
    req.argvLen.getD index 0 = ((args.getD index []).length : Int)
  stored : ∀ index, index < args.length →
    Holds mem (req.argv.getD index 0)
      (args.getD index [] ++ (13 :: 10 :: respBulks (args.drop (index + 1))))

theorem layout_stored {mem : Bytes} {p : Int} {args : List Bytes}
    {rest : Bytes} (stored : Holds mem p (respBulks args ++ rest))
    {index : Nat} (inside : index < args.length) :
    Holds mem (((layout p args).map Prod.fst).getD index 0)
      (args.getD index [] ++
        (13 :: 10 :: (respBulks (args.drop (index + 1)) ++ rest))) := by
  induction args generalizing p index with
  | nil => exact absurd inside (Nat.not_lt_zero index)
  | cons arg args induction =>
      rw [respBulks_cons, List.append_assoc] at stored
      cases index with
      | zero =>
          have split : respBulk arg ++ (respBulks args ++ rest) =
              (36 :: (decimal arg.length ++ [13, 10])) ++
                (arg ++ (13 :: 10 :: (respBulks args ++ rest))) := by
            simp [respBulk]
          rw [split] at stored
          have address : p +
              ((36 :: (decimal arg.length ++ [13, 10])).length : Nat) =
              p + (1 + (decimal arg.length).length + 2 : Nat) := by
            simp
            ring
          have data := stored.right
          rw [address] at data
          exact data
      | succ index =>
          exact induction stored.right (Nat.lt_of_succ_lt_succ inside)

theorem layout_lengths (p : Int) (args : List Bytes) (index : Nat) :
    ((layout p args).map Prod.snd).getD index 0 =
      ((args.getD index []).length : Int) := by
  induction args generalizing p index with
  | nil => rfl
  | cons arg args induction =>
      cases index with
      | zero => rfl
      | succ index => exact induction _ index

/-- The request of a canonical frame. -/
theorem arrived_encode {mem : Bytes} {address : Int} {args : List Bytes}
    (stored : Holds mem address (respEncode args))
    (small : (respEncode args).length < 2 ^ 31) :
    Arrived mem (respUnpackNoModify mem address (respEncode args).length)
      args := by
  rw [respUnpackNoModify_encode stored small]
  refine ⟨rfl, ?_, ?_⟩
  · exact layout_lengths _ args
  · intro index inside
    rw [respEncode] at stored
    have bulks := stored.right
    rw [← List.append_nil (respBulks args)] at bulks
    have data := layout_stored bulks inside
    rw [List.append_nil] at data
    exact data

section Arrived

variable {mem : Bytes} {req : RespRequest} {args : List Bytes}

theorem Arrived.slice_eq (arrived : Arrived mem req args) (index : Nat) :
    slice mem (req.argv.getD index 0) (req.argvLen.getD index 0) =
      args.getD index [] := by
  rw [arrived.lengths]
  by_cases inside : index < args.length
  · exact (arrived.stored index inside).left.slice
  · rw [List.getD_eq_default _ _ (Nat.le_of_not_lt inside)]
    simp [slice]

theorem Arrived.nameIs_eq (arrived : Arrived mem req args) (index : Nat)
    (keyword : Bytes) :
    nameIs mem (req.argv.getD index 0) (req.argvLen.getD index 0) keyword =
      sameName (args.getD index []) keyword := by
  rw [nameIs_of_slice (arrived.slice_eq index) (arrived.lengths index)]

/-- A number argument with another argument behind it. -/
theorem Arrived.number_inner (arrived : Arrived mem req args) {index : Nat}
    (inner : index + 1 < args.length) :
    atoll (bytesFrom mem (req.argv.getD index 0)) =
      strtoll (args.getD index []) := by
  have stored := arrived.stored index (Nat.lt_of_succ_lt inner)
  obtain ⟨tail, next⟩ : ∃ tail,
      respBulks (args.drop (index + 1)) = 36 :: tail := by
    rw [List.drop_eq_getElem_cons inner, respBulks_cons, respBulk]
    exact ⟨_, rfl⟩
  rw [next] at stored
  obtain ⟨_, rest, shape⟩ := stored
  have split : args.getD index [] ++ 13 :: 10 :: 36 :: tail ++ rest =
      (args.getD index [] ++ [13, 10]) ++ 36 :: (tail ++ rest) := by
    simp
  rw [atoll, ← shape, split,
    strtoll_stop _ rfl rfl (by decide) (by decide)]
  by_cases blank : Blank (args.getD index [])
  · rw [strtoll_of_blank blank, strtoll_of_blank]
    intro byte member
    rcases List.mem_append.mp member with old | new
    · exact blank byte old
    · rcases List.mem_pair.mp new with rfl | rfl <;> rfl
  · exact strtoll_append blank (digitFree_crlf _)

/-- A number argument that is not blank. -/
theorem Arrived.number_begun (arrived : Arrived mem req args) {index : Nat}
    (inside : index < args.length) (begun : ¬ Blank (args.getD index [])) :
    atoll (bytesFrom mem (req.argv.getD index 0)) =
      strtoll (args.getD index []) := by
  obtain ⟨_, rest, shape⟩ := arrived.stored index inside
  rw [atoll, ← shape, List.append_assoc]
  exact strtoll_append begun (digitFree_crlf _)

end Arrived

/-! ## Names -/

/-- The command that `lookup_command` finds for the bytes of a name. -/
def commandNamed (name : Bytes) : Option Command :=
  probe (fun command => sameName name command.name) cmdHashSize
    (cmdSlot (cmdHash (cString name)))

/-- A name is found by a scan of the commands. -/
theorem commandNamed_scan (name : Bytes) :
    commandNamed name =
      gCmdTable.find? (fun command => sameName name command.name) :=
  probe_scan (cmdSlot_lt _) (fun _ member same =>
    congrArg cmdSlot (cmdHash_of_sameName member same).symm)

theorem commandNamed_some {name : Bytes} {command : Command}
    (found : commandNamed name = some command) :
    command ∈ gCmdTable ∧ sameName name command.name = true := by
  rw [commandNamed_scan] at found
  exact scan_iff.mp found

theorem sameName_nil {keyword : Bytes} (proper : keyword ≠ []) :
    sameName [] keyword = false := by
  rw [sameName, List.map_nil, beq_eq_false_iff_ne, Ne, List.nil_eq,
    List.map_eq_nil_iff]
  exact proper

/-- No name in the table starts with a carriage return. -/
theorem gCmdTable_names : ∀ command ∈ gCmdTable,
    command.name ≠ [] ∧ (command.name.map toUpper).head? ≠ some 13 := by
  decide

/-- The bytes behind an empty name never form a name of the table. -/
theorem nameIs_crlf {mem : Bytes} {address : Int} {rest : Bytes}
    (stored : Holds mem address (13 :: rest)) (len : Int)
    {command : Command} (member : command ∈ gCmdTable) :
    nameIs mem address len command.name = false := by
  obtain ⟨proper, other⟩ := gCmdTable_names command member
  rw [Bool.eq_false_iff]
  intro fits
  rw [nameIs, Bool.and_eq_true, decide_eq_true_iff] at fits
  obtain ⟨length, same⟩ := fits
  obtain ⟨_, tail, shape⟩ := stored
  obtain ⟨count, positive⟩ : ∃ count, command.name.length = count + 1 :=
    Nat.exists_eq_succ_of_ne_zero
      (fun zero => proper (List.eq_nil_of_length_eq_zero zero))
  apply other
  rw [← eq_of_beq same, slice, length, ← shape, Int.toNat_natCast, positive]
  rfl

theorem commandNamed_nil : commandNamed [] = none := by
  rw [commandNamed_scan, List.find?_eq_none]
  intro command member
  rw [sameName_nil (gCmdTable_names command member).1]
  exact Bool.false_ne_true

/-- A name is looked up by its bytes; an empty one is not found. -/
theorem Arrived.lookupCommand_eq {mem : Bytes} {req : RespRequest}
    {args : List Bytes} (arrived : Arrived mem req args)
    (nonempty : 0 < args.length) :
    lookupCommand mem (req.argv.getD 0 0) (req.argvLen.getD 0 0) =
      commandNamed (args.getD 0 []) := by
  rw [lookupCommand_scan]
  by_cases empty : args.getD 0 [] = []
  · have stored := arrived.stored 0 nonempty
    rw [empty, List.nil_append] at stored
    rw [empty, commandNamed_nil, List.find?_eq_none]
    intro command member
    rw [nameIs_crlf stored _ member]
    exact Bool.false_ne_true
  · have positive : 0 < req.argvLen.getD 0 0 := by
      rw [arrived.lengths]
      exact Int.natCast_pos.mpr (List.length_pos_of_ne_nil empty)
    rw [commandNamed_scan, compareLen, if_pos positive]
    congr 1
    funext command
    exact arrived.nameIs_eq 0 command.name

/-- The command of a canonical request. -/
theorem Arrived.command_eq {mem : Bytes} {req : RespRequest}
    {args : List Bytes} (arrived : Arrived mem req args) :
    (if 0 < req.argc then
        lookupCommand mem (req.argv.getD 0 0) (req.argvLen.getD 0 0)
      else none) =
      commandNamed (args.getD 0 []) := by
  rw [arrived.argc]
  by_cases nonempty : 0 < args.length
  · rw [if_pos (Int.natCast_pos.mpr nonempty),
      arrived.lookupCommand_eq nonempty]
  · have empty : args = [] :=
      List.eq_nil_of_length_eq_zero (Nat.eq_zero_of_not_pos nonempty)
    subst empty
    exact commandNamed_nil.symm

theorem Arrived.requestIs_eq {mem : Bytes} {req : RespRequest}
    {args : List Bytes} (arrived : Arrived mem req args) {keyword : Bytes}
    (proper : keyword ≠ []) :
    requestIs mem req keyword = sameName (args.getD 0 []) keyword := by
  rw [requestIs, arrived.nameIs_eq, arrived.argc]
  cases args with
  | nil => rw [List.getD_nil, sameName_nil proper, Bool.and_false]
  | cons arg args => simp

/-- `is_write_command` on the bytes of a name. -/
def isWriteName (name : Bytes) : Bool :=
  writeCommandNames.any (sameName name)

theorem Arrived.isWrite_eq {mem : Bytes} {req : RespRequest}
    {args : List Bytes} (arrived : Arrived mem req args) :
    (decide (0 < req.argc) &&
        isWriteCommand mem (req.argv.getD 0 0) (req.argvLen.getD 0 0)) =
      isWriteName (args.getD 0 []) := by
  have compared : ∀ literal : Bytes,
      nameIs mem (req.argv.getD 0 0) (req.argvLen.getD 0 0) literal =
        sameName (args.getD 0 []) literal :=
    arrived.nameIs_eq 0
  rw [isWriteCommand, isWriteName, funext compared, arrived.argc]
  cases args with
  | nil => decide
  | cons arg args => simp

/-! ## One frame -/

/-- The globals behind the write-ahead step of a canonical frame. -/
def prepared (flags : Flags) (fd : Int) (mem : Bytes) (req : RespRequest)
    (args : List Bytes) (globals : Globals Store) : Globals Store :=
  let noted :=
    { globals with repl := noteSlave flags mem req fd globals.repl }
  if isWriteName (args.getD 0 []) then
    noted.logFrame flags (respEncode args)
  else noted

@[simp]
theorem prepared_store (flags : Flags) (fd : Int) (mem : Bytes)
    (req : RespRequest) (args : List Bytes) (globals : Globals Store) :
    (prepared flags fd mem req args globals).store = globals.store := by
  rw [prepared]
  split_ifs <;> rfl

/-- What the loop body does with a canonical frame that is neither `PING` nor
handed to the RDMA connection. -/
theorem serveCommand_encode (flags : Flags) (fd : Int) {mem : Bytes}
    {address : Int} {args : List Bytes}
    (stored : Holds mem address (respEncode args))
    (small : (respEncode args).length < 2 ^ 31)
    (ordinary : sameName (args.getD 0 []) (ascii "PING") = false)
    (local_ : (flags.enableReplMaster &&
      sameName (args.getD 0 []) (ascii "RDMA_CONNECT")) = false)
    (session : Session Store) :
    serveCommand (commandLayer flags) flags fd mem address
        (respEncode args).length session =
      let req := respUnpackNoModify mem address (respEncode args).length
      let outcome := kvsExecuteBatch flags
        (prepared flags fd mem req args session.globals) mem req
        (commandNamed (args.getD 0 []))
      { globals := outcome.1
        wbuf := packReply session.wbuf outcome.2
        executed := session.executed ++ [req.args mem] } := by
  have arrived := arrived_encode stored small
  have ping := arrived.requestIs_eq (show ascii "PING" ≠ [] by decide)
  have rdma := arrived.requestIs_eq
    (show ascii "RDMA_CONNECT" ≠ [] by decide)
  have frame := stored.slice
  have command := arrived.command_eq
  have write := arrived.isWrite_eq
  rw [serveCommand]
  dsimp only
  rw [ping, ordinary, rdma, local_, if_neg Bool.false_ne_true,
    if_neg Bool.false_ne_true, frame, write, commandLayer]
  dsimp only
  rw [command]
  rfl

end Kivo.Server.Requests
