import Kivo.Server.Serving

/-!
# Reading back what was set

A client that has set a key and got `+OK` expects to read the very bytes back
until somebody sets, modifies or deletes the key again.  The value passes
through the parser, one of four storage layouts and the reply builder, and each
of them treats length zero in its own way: `kvs_set_reply_body` answers an
empty value like a missing key, and the array does not find an empty key again.
In the skip list, `ZADD` overwrites the key that it composes from a time and an
id.  Nothing else stands between a set and its reading.
-/

namespace Kivo.Server.ReadBack

open Kivo.Clib.Memory
open Kivo.Clib.Numeral
open Kivo.Clib.Simulation
open Kivo.Engine.Data
open Kivo.Engine.KeyMap
open Kivo.Engine.SkipEngine
open Kivo.Engine.SkipRuns (Level)
open Kivo.Engine.Store
open Kivo.Engine.Maps
open Kivo.Resp.Frame
open Kivo.Resp.Canonical
open Kivo.Resp.Reply
open Kivo.Server.State
open Kivo.Server.Commands
open Kivo.Server.CommandTable
open Kivo.Server.Requests
open Kivo.Server.Alignment
open Kivo.Server.Changes
open Kivo.Server.Serving

/-! ## Commands about a key -/

/-- A command of a handler that stores a value at a key. -/
structure Stores (args : List Bytes) (proc : Proc) (key value : Bytes) :
    Prop where
  executes : Executes args proc
  enough : 3 ≤ args.length
  key : args.getD 1 [] = key
  value : args.getD 2 [] = value

/-- A command of a handler that asks for a key. -/
structure Asks (args : List Bytes) (proc : Proc) (key : Bytes) : Prop where
  executes : Executes args proc
  enough : 2 ≤ args.length
  key : args.getD 1 [] = key

/-- A command that sets, modifies or deletes a key of a family. -/
def Rewrites (family : Family) (key : Bytes) (args : List Bytes) : Prop :=
  (Executes args family.setProc ∨ Executes args family.modProc ∨
    Executes args family.delProc) ∧ args.getD 1 [] = key

/-- The reply that carries a value. -/
def bulk (value : Bytes) : Bytes :=
  ascii "$" ++ decimal value.length ++ ascii "\r\n" ++ value ++ ascii "\r\n"

/-- The reply to a missing key carries no value. -/
theorem bulk_ne_missing (value : Bytes) : ascii "$-1\r\n" ≠ bulk value := by
  intro same
  have digits : decimal value.length ≠ [] := by
    rw [decimal]
    split_ifs with zero
    · exact List.cons_ne_nil _ _
    · intro none
      rw [List.map_eq_nil_iff, List.reverse_eq_nil_iff,
        Nat.digits_eq_nil_iff_eq_zero] at none
      exact zero none
  have positive := List.length_pos_of_ne_nil digits
  have lengths := congrArg List.length same
  rw [bulk] at lengths
  simp only [List.length_append] at lengths
  have fixed : (ascii "$-1\r\n").length = 5 ∧ (ascii "$").length = 1 ∧
      (ascii "\r\n").length = 2 := by decide
  omega

section Steps

variable {flags : Flags} (off : flags.enableTtl = false)
  {globals : Globals Store} (valid : Valid globals.store.tables)
  {family : Family} {key : Bytes}

include off valid

/-- After a set that was answered with `+OK`, the map holds the value unless
the key was lost. -/
theorem set_map {request : Request} {value : Bytes}
    (stores : Stores request.args family.setProc key value)
    (answered : (serverStep flags globals request).2 = ascii "+OK\r\n")
    (kept : ¬ Loses family.table key) :
    Tables.map (serverStep flags globals request).1.store.tables
        family.table key =
      some { value := value, expireTime := 0 } := by
  have room := set_room off valid stores.executes stores.enough answered
  rw [stores.key] at room
  obtain ⟨command, found, proc⟩ := stores.executes
  have few : decide (request.args.length < 3) = false :=
    decide_eq_false (Nat.not_lt_of_le stores.enough)
  have untimed : expireOf (request.call flags globals) = 0 := by
    rw [expireOf, if_neg]
    rw [show (request.call flags globals).flags.enableTtl = false from off]
    exact Bool.false_ne_true
  have change : ∀ context, commandChange request.args 0 context =
      .operate family.table (.set key value 0) := by
    intro context
    rw [commandChange, found]
    dsimp only
    rw [proc, ← stores.key, ← stores.value]
    cases family <;>
      · simp only [Family.setProc, Proc.change, settingChange, few,
          Change.unless]
        rfl
  rw [serverStep_tables off, Call.after, untimed, change, Change.apply]
  have step := operate_map valid false
    (request.call flags globals).world.level family.table
    (show Operation.Sets (.set key value 0) → _ from
      fun _ => ⟨room, kept⟩)
  refine (congrFun (congrArg Prod.fst step) key).trans ?_
  exact if_pos rfl

/-- A request that does not rewrite the key leaves it alone, unless it is a
`ZADD` that stores under the key. -/
theorem step_map {request : Request}
    (untouched : ¬ Rewrites family key request.args)
    (unadded : family = .skip → ¬ AddsKey request.args key) :
    Tables.map (serverStep flags globals request).1.store.tables
        family.table key =
      Tables.map globals.store.tables family.table key := by
  rw [serverStep_tables off, Call.after]
  refine Change.apply_frame _ valid _ ?_
  rw [commandChange]
  cases found : commandNamed (request.args.getD 0 []) with
  | none => exact id
  | some command =>
      intro about
      rcases Proc.change_atKey about with
        ⟨target, same⟩ | ⟨proc, skip, three, positive, made⟩
      · refine untouched ⟨?_, same⟩
        have executes : Executes request.args command.proc :=
          ⟨command, found, rfl⟩
        generalize command.proc = proc at target executes
        cases family <;> cases proc <;>
          first
          | exact Or.inl executes
          | exact Or.inr (Or.inl executes)
          | exact Or.inr (Or.inr executes)
          | cases target
      · refine unadded ?_ ⟨⟨command, found, proc⟩, three, positive, made⟩
        cases family <;> first | rfl | cases skip

/-- A `ZADD` that stores under a key leaves an empty value there. -/
theorem step_added {request : Request}
    (added : AddsKey request.args key) :
    Tables.map (serverStep flags globals request).1.store.tables .skip key =
      some { value := [], expireTime := 0 } := by
  obtain ⟨⟨command, found, proc⟩, three, positive, made⟩ := added
  have change : ∀ expire context,
      commandChange request.args expire context =
        .zadd (strtoll (request.args.getD 1 [])) (request.args.getD 2 []) := by
    intro expire context
    rw [commandChange, found]
    dsimp only
    rw [proc, Proc.change, Change.unless, Change.unless,
      if_neg (by simp [three]), if_neg (by simpa using positive)]
  rw [serverStep_tables off, Call.after, change, Change.apply]
  have stored := kvsZsetAdd_contents valid.skip
    (strtoll (request.args.getD 1 [])) (request.args.getD 2 [])
    (request.call flags globals).world.level
  rw [made] at stored
  exact (congrFun stored key).trans (if_pos rfl)

/-- Requests that do not rewrite the key leave it alone. -/
theorem run_map {others : List Request}
    (untouched : ∀ request ∈ others, ¬ Rewrites family key request.args)
    (unadded : family = .skip →
      ∀ request ∈ others, ¬ AddsKey request.args key) :
    Valid (run (serverStep flags) globals others).1.store.tables ∧
      Tables.map (run (serverStep flags) globals others).1.store.tables
          family.table key =
        Tables.map globals.store.tables family.table key := by
  induction others generalizing globals with
  | nil => exact ⟨valid, rfl⟩
  | cons request rest induction =>
      obtain ⟨after, same⟩ := induction
        (serverStep_valid off valid request)
        (fun other member => untouched other (List.mem_cons_of_mem _ member))
        (fun skip other member =>
          unadded skip other (List.mem_cons_of_mem _ member))
      refine ⟨after, same.trans ?_⟩
      exact step_map off valid (untouched request List.mem_cons_self)
        (fun skip => unadded skip request List.mem_cons_self)

omit valid in
/-- Once a `ZADD` has stored under the key, it holds an empty value. -/
theorem run_added {others : List Request}
    (valid : Valid globals.store.tables)
    (untouched : ∀ request ∈ others, ¬ Rewrites .skip key request.args)
    (started : (∃ request ∈ others, AddsKey request.args key) ∨
      Tables.map globals.store.tables .skip key =
        some { value := [], expireTime := 0 }) :
    Valid (run (serverStep flags) globals others).1.store.tables ∧
      Tables.map (run (serverStep flags) globals others).1.store.tables
          .skip key =
        some { value := [], expireTime := 0 } := by
  induction others generalizing globals with
  | nil =>
      refine ⟨valid, started.resolve_left ?_⟩
      rintro ⟨request, member, -⟩
      cases member
  | cons request rest induction =>
      refine induction (serverStep_valid off valid request)
        (fun other member => untouched other (List.mem_cons_of_mem _ member))
        ?_
      by_cases here : AddsKey request.args key
      · exact Or.inr (step_added off valid here)
      · rcases started with ⟨other, member, added⟩ | empty
        · rcases List.mem_cons.mp member with rfl | later
          · exact absurd added here
          · exact Or.inl ⟨other, later, added⟩
        · refine Or.inr (Eq.trans ?_ empty)
          exact @step_map _ off _ valid .skip key request
            (untouched request List.mem_cons_self) (fun _ => here)

end Steps

/--
After a set that was answered with `+OK` and any requests that do not set,
modify or delete the key, reading answers the value and testing finds the key
exactly when the value is not empty, the key is not the empty key of the array,
and no `ZADD` has stored under the key of the skip list.
-/
theorem set_read_back_iff {flags : Flags} (off : flags.enableTtl = false)
    (family : Family) {globals : Globals Store}
    (valid : Valid globals.store.tables) {key value : Bytes}
    {set get test : Request} {others : List Request}
    (stores : Stores set.args family.setProc key value)
    (answered : (serverStep flags globals set).2 = ascii "+OK\r\n")
    (untouched : ∀ request ∈ others, ¬ Rewrites family key request.args)
    (gets : Asks get.args family.getProc key)
    (tests : Asks test.args family.existsProc key) :
    let after :=
      (run (serverStep flags) (serverStep flags globals set).1 others).1
    ((serverStep flags after get).2 = bulk value ∧
        (serverStep flags after test).2 =
          ascii "-ERR key already exists\r\n") ↔
      value ≠ [] ∧ (family = .array → key ≠ []) ∧
        (family = .skip →
          ∀ request ∈ others, ¬ AddsKey request.args key) := by
  have begun := serverStep_valid off valid set
  have reads : ∀ {after : Globals Store}, Valid after.store.tables →
      (serverStep flags after get).2 =
        respPack (kvsSetReplyBody
          ((Tables.map after.store.tables family.table key).map
            Item.value)) := by
    intro after valid
    rw [get_answer off valid gets.executes gets.enough, gets.key]
  constructor
  · rintro ⟨read, -⟩
    have added : family = .skip →
        ∀ request ∈ others, ¬ AddsKey request.args key := by
      rintro rfl request member adds
      obtain ⟨valid', empty⟩ := run_added off begun untouched
        (Or.inl ⟨request, member, adds⟩)
      rw [reads valid', show Family.skip.table = .skip from rfl, empty]
        at read
      exact bulk_ne_missing value read
    obtain ⟨valid', same⟩ := run_map off begun untouched added
    rw [reads valid', same] at read
    have proper : family = .array → key ≠ [] := by
      rintro rfl rfl
      rw [show Family.array.table = .array from rfl, map_array_nil begun]
        at read
      exact bulk_ne_missing value read
    have kept : ¬ Loses family.table key := by
      rintro ⟨array, empty⟩
      refine proper ?_ empty
      cases family <;> first | rfl | cases array
    refine ⟨?_, proper, added⟩
    rintro rfl
    rw [set_map off valid stores answered kept] at read
    exact bulk_ne_missing [] read
  · rintro ⟨nonempty, proper, added⟩
    have kept : ¬ Loses family.table key := by
      rintro ⟨array, empty⟩
      refine proper ?_ empty
      cases family <;> first | rfl | cases array
    obtain ⟨valid', same⟩ := run_map off begun untouched added
    rw [set_map off valid stores answered kept] at same
    refine ⟨?_, ?_⟩
    · rw [reads valid', same]
      dsimp only [Option.map_some, kvsSetReplyBody]
      rw [if_pos (List.length_pos_of_ne_nil nonempty)]
      have short := arg_length_lt set.args 2
      rw [stores.value] at short
      exact respPack_bulk (short.trans set.small)
    · rw [exists_answer off valid' tests.executes tests.enough, tests.key,
        same]
      rfl

/-- A request whose frame stands alone in the buffer. -/
def requestOf (args : List Bytes)
    (small : (respEncode args).length < 2 ^ 31) : Request :=
  { fd := 7
    mem := respEncode args
    address := 0
    args := args
    stored := ⟨Int.le_refl 0, List.prefix_rfl⟩
    small := small }

/-- The globals of a fresh server. -/
def freshServer : Globals Store :=
  (freshSession (fun _ => default)).globals

/-- `SSET`, a `ZADD` under another key, and reading back. -/
theorem set_read_back_skip :
    (serverStep plainFlags
        (run (serverStep plainFlags)
          (serverStep plainFlags freshServer
            (requestOf [ascii "SSET", ascii "k", ascii "v"]
              (by decide +kernel))).1
          [requestOf [ascii "ZADD", ascii "1", ascii "a"]
            (by decide +kernel)]).1
        (requestOf [ascii "SGET", ascii "k"] (by decide +kernel))).2 =
      bulk (ascii "v") := by
  have named : commandNamed (ascii "ZADD") = some ⟨ascii "ZADD", .zadd⟩ := by
    decide +kernel
  refine ((@set_read_back_iff plainFlags rfl .skip freshServer valid_create
    (ascii "k") (ascii "v")
    (requestOf [ascii "SSET", ascii "k", ascii "v"] (by decide +kernel))
    (requestOf [ascii "SGET", ascii "k"] (by decide +kernel))
    (requestOf [ascii "SEXISTS", ascii "k"] (by decide +kernel))
    [requestOf [ascii "ZADD", ascii "1", ascii "a"] (by decide +kernel)]
    ⟨⟨⟨ascii "SSET", .skipSet⟩, by decide +kernel, rfl⟩, by decide, rfl, rfl⟩
    (by decide +kernel) ?_
    ⟨⟨⟨ascii "SGET", .skipGet⟩, by decide +kernel, rfl⟩, by decide, rfl⟩
    ⟨⟨⟨ascii "SEXISTS", .skipExists⟩, by decide +kernel, rfl⟩, by decide,
      rfl⟩).mpr ⟨by decide, nofun, ?_⟩).1
  · rintro request member ⟨-, same⟩
    rw [List.mem_singleton.mp member] at same
    exact absurd same (by decide)
  · rintro - request member ⟨-, -, -, made⟩
    rw [List.mem_singleton.mp member] at made
    exact absurd made (by decide +kernel)

/--
An empty value, an empty key of the array, and a key that `ZADD` composes: each
is set with `+OK` and read back as missing.
-/
theorem set_not_read_back :
    ((serverStep plainFlags freshServer
        (requestOf [ascii "RSET", ascii "k", []] (by decide +kernel))).2 =
        ascii "+OK\r\n" ∧
      (serverStep plainFlags
        (serverStep plainFlags freshServer
          (requestOf [ascii "RSET", ascii "k", []] (by decide +kernel))).1
        (requestOf [ascii "RGET", ascii "k"] (by decide +kernel))).2 =
        ascii "$-1\r\n") ∧
    ((serverStep plainFlags freshServer
        (requestOf [ascii "SET", [], ascii "v"] (by decide +kernel))).2 =
        ascii "+OK\r\n" ∧
      (serverStep plainFlags
        (serverStep plainFlags freshServer
          (requestOf [ascii "SET", [], ascii "v"] (by decide +kernel))).1
        (requestOf [ascii "GET", []] (by decide +kernel))).2 =
        ascii "$-1\r\n") ∧
    ((serverStep plainFlags freshServer
        (requestOf [ascii "SSET", ascii "000000000000001:a", ascii "v"]
          (by decide +kernel))).2 = ascii "+OK\r\n" ∧
      (serverStep plainFlags
        (run (serverStep plainFlags)
          (serverStep plainFlags freshServer
            (requestOf [ascii "SSET", ascii "000000000000001:a", ascii "v"]
              (by decide +kernel))).1
          [requestOf [ascii "ZADD", ascii "1", ascii "a"]
            (by decide +kernel)]).1
        (requestOf [ascii "SGET", ascii "000000000000001:a"]
          (by decide +kernel))).2 =
        ascii "$-1\r\n") := by
  decide +kernel

end Kivo.Server.ReadBack
