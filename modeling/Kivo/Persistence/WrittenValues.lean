import Kivo.Clib.Repeating
import Kivo.Engine.LastingTable
import Kivo.Persistence.TwinReplay

/-!
# What commands write under a key

Without TTL the value under a key of a table changes by the commands alone:
most commands that touch a key set or delete its value whatever it was before,
and `SETIDX` adds an id to it.  A run of commands therefore acts on each key by
itself, as long as the hash tables have room.
-/

namespace Kivo.Persistence.WrittenValues

open Kivo.Clib.Memory
open Kivo.Clib.Numeral
open Kivo.Clib.Repeating
open Kivo.Clib.Separated
open Kivo.Engine.Data
open Kivo.Engine.KeyMap
open Kivo.Engine.HashEngine
open Kivo.Engine.HashTable (entries nodes slotLimit)
open Kivo.Engine.LastingTable
open Kivo.Engine.Maps
open Kivo.Engine.SkipEngine
open Kivo.Engine.SkipRuns (Level)
open Kivo.Engine.Store
open Kivo.Engine.TwinTables
open Kivo.Resp.Canonical
open Kivo.Resp.Frame
open Kivo.Resp.Reply
open Kivo.Resp.Stream (respStream respStream_cons)
open Kivo.Server.CommandTable
open Kivo.Server.Changes
open Kivo.Server.Requests (commandNamed isWriteName)
open Kivo.Persistence.Replay
open Kivo.Persistence.TwinReplay

/-! ## Values -/

/-- The value under a key of a table, whatever its time is. -/
def value (tables : Tables) (table : Table) (key : Bytes) : Option Bytes :=
  (Tables.map tables table key).map Item.value

theorem value_create (table : Table) (key : Bytes) :
    value Tables.create table key = none := by
  rw [value, map_create]
  rfl

/-- The value that an addition leaves in place of an old one. -/
def addedValue (old : Option Bytes) (id : Bytes) : Option Bytes :=
  if old.getD [] ≠ [] ∧ id ∈ pieces 44 (old.getD []) then old
  else some (appended (old.getD []) id)

/-- The value that a call leaves under its key. -/
def Operation.leaves (old : Option Bytes) : Operation → Option Bytes
  | .set _ value _ => some value
  | .mod _ value _ => some value
  | .del _ => none
  | _ => old

/-- The value that a change leaves under a key of a table. -/
def Change.leaves (table : Table) (key : Bytes) (old : Option Bytes) :
    Change → Option Bytes
  | .keep => old
  | .operate other operation =>
      if other = table ∧ operation.key = key then
        Operation.leaves old operation
      else old
  | .append keyword id =>
      if table = .hash .hash4 ∧ keyword = key ∧ id ≠ [] then
        addedValue old id
      else old
  | .zadd timestamp id =>
      if table = .skip ∧ zsetKey timestamp id = some key then some []
      else old

/-- A change leaves the same values at every time. -/
theorem PairedChange.leaves_eq {change other : Change}
    (paired : PairedChange change other) (table : Table) (key : Bytes)
    (old : Option Bytes) :
    Change.leaves table key old change =
      Change.leaves table key old other := by
  cases paired with
  | keep => rfl
  | operate touched paired same => cases paired <;> rfl
  | append keyword id => rfl
  | zadd timestamp id => rfl

theorem appendId_addedValue (old : Option Item) (id : Bytes) :
    (appendId old id).map Item.value =
      addedValue (old.map Item.value) id := by
  rw [appendId, addedValue, splitComma_eq]
  generalize text : (old.map Item.value).getD [] = shown
  by_cases empty : shown = []
  · rw [if_pos (by simpa using empty), if_neg (fun both => both.1 empty),
      appended, if_pos empty]
    rfl
  · rw [if_neg (by simpa using empty)]
    by_cases listed : id ∈ pieces 44 shown
    · rw [if_pos listed, if_pos ⟨empty, listed⟩]
    · rw [if_neg listed, if_neg (fun both => listed both.2), appended,
        if_neg empty, List.append_assoc]
      rfl

/-! ## One change -/

/-- The hash tables have room for one more key. -/
def Roomy (tables : Tables) : Prop :=
  ∀ name, (nodes (tables.hashes name)).length < slotLimit

section Changes

variable {tables : Tables} (valid : Valid tables) (roomy : Roomy tables)

include valid roomy

/-- A call leaves its value. -/
theorem operate_value {operation other : Operation}
    (paired : Paired operation other) (level : Level) {table : Table}
    (keyed : table ≠ .array) :
    value (tables.operate false level table operation).1 table
        operation.key =
      Operation.leaves (value tables table operation.key) operation := by
  have carried : Operation.Sets operation →
      ¬ Refuses tables operation.key table ∧
        ¬ Loses table operation.key := by
    refine fun _ => ⟨?_, fun lost => keyed lost.1⟩
    cases table with
    | array => exact absurd rfl keyed
    | rbtree => exact id
    | hash name => exact (roomy name).ne
    | skip => exact id
  have step := congrArg Prod.fst (operate_map valid false level table carried)
  rw [value, show Tables.map (tables.operate false level table operation).1
    table = _ from step]
  cases paired with
  | set key stored time other =>
      simp only [Contents.step, Operation.key, Contents.set, if_true]
      rfl
  | mod key stored time other =>
      simp only [Contents.step, Operation.key, Contents.set, if_true]
      rfl
  | del key =>
      simp only [Contents.step, Operation.key, Contents.erase, if_true]
      rfl

omit roomy in
theorem append_value_other (keyword id : Bytes) (level : Level)
    {table : Table} {key : Bytes}
    (apart : ¬ (table = .hash .hash4 ∧ keyword = key ∧ id ≠ [])) :
    value ((Change.append keyword id).apply level tables) table key =
      value tables table key := by
  cases table with
  | array => rfl
  | rbtree => rfl
  | hash name =>
      by_cases here : name = .hash4
      · subst here
        have elsewhere : key ≠ keyword ∨ id = [] := by
          by_contra both
          obtain ⟨same, proper⟩ := not_or.mp both
          exact apart ⟨rfl, (not_not.mp same).symm, proper⟩
        have kept : contents (entries (kvsHashAppend false 0
            (tables.hashes .hash4) keyword 0 id).1) key =
            contents (entries (tables.hashes .hash4)) key := by
          rcases elsewhere with different | empty
          · exact kvsHashAppend_frame (valid.hashes .hash4) 0 different id
          · rw [empty, kvsHashAppend_nil]
        simp only [value, Tables.map, Tables.keyed, Tables.entries,
          Change.apply, Function.update_self]
        exact congrArg (Option.map Item.value) kept
      · simp only [value, Tables.map, Tables.keyed, Tables.entries,
          Change.apply, Function.update_of_ne here]
  | skip => rfl

theorem append_value (keyword : Bytes) {id : Bytes} (proper : id ≠ [])
    (level : Level) :
    value ((Change.append keyword id).apply level tables) (.hash .hash4)
        keyword =
      addedValue (value tables (.hash .hash4) keyword) id := by
  have added := congrFun (kvsHashAppend_contents (valid.hashes .hash4)
    (roomy .hash4) 0 keyword proper) keyword
  rw [if_pos rfl] at added
  rw [value, value, ← appendId_addedValue]
  simp only [Tables.map, Tables.keyed, Tables.entries, Change.apply,
    Function.update_self]
  exact congrArg (Option.map Item.value) added

omit roomy in
theorem zadd_value (timestamp : Int) (id : Bytes) (level : Level)
    (table : Table) (key : Bytes) :
    value ((Change.zadd timestamp id).apply level tables) table key =
      Change.leaves table key (value tables table key)
        (.zadd timestamp id) := by
  cases table with
  | array => rfl
  | rbtree => rfl
  | hash name => rfl
  | skip =>
      have set := congrFun
        (kvsZsetAdd_contents valid.skip timestamp id level) key
      simp only [value, Tables.map, Tables.keyed, Tables.entries,
        Change.apply, Change.leaves, true_and, set]
      cases zsetKey timestamp id with
      | none => rfl
      | some made =>
          dsimp only
          by_cases here : key = made
          · rw [Contents.set, if_pos here, if_pos (congrArg some here.symm)]
            rfl
          · rw [Contents.set, if_neg here,
              if_neg (fun same => here (Option.some.inj same).symm)]

/-- What a change leaves under a key. -/
theorem apply_value {change other : Change}
    (paired : PairedChange change other) (level : Level) {table : Table}
    (keyed : table ≠ .array) (key : Bytes) :
    value (change.apply level tables) table key =
      Change.leaves table key (value tables table key) change := by
  cases paired with
  | keep => rfl
  | @operate touched operation _ paired same =>
      rw [Change.leaves]
      split_ifs with here
      · obtain ⟨rfl, rfl⟩ := here
        exact operate_value valid roomy paired level keyed
      · refine congrArg (Option.map Item.value)
          (operate_frame valid false level touched table operation ?_)
        exact fun same wanted => here ⟨same.symm, wanted.symm⟩
  | append keyword id =>
      rw [Change.leaves]
      split_ifs with here
      · obtain ⟨rfl, rfl, proper⟩ := here
        exact append_value valid roomy keyword proper level
      · exact append_value_other valid keyword id level here
  | zadd timestamp id => exact zadd_value valid timestamp id level table key

end Changes

/-! ## Commands -/

theorem settingChange_paired (misused : Bool) (table : Table)
    (args : List Bytes) {time other : Int}
    (same : table = .array → time = other) :
    PairedChange (settingChange misused table args time)
      (settingChange misused table args other) := by
  refine PairedChange.unless (.operate table (.set _ _ _ _) ?_) misused
  intro array
  rw [same array]

theorem deletingChange_paired (misused : Bool) (table : Table)
    (args : List Bytes) :
    PairedChange (deletingChange misused table args)
      (deletingChange misused table args) :=
  PairedChange.unless (.operate table (.del _) (fun _ => rfl)) misused

theorem modifyingChange_paired (table : Table) (args : List Bytes) :
    PairedChange (modifyingChange table args) (modifyingChange table args) :=
  PairedChange.unless (.operate table (.mod _ _ _ _) (fun _ => rfl)) _

/-- The time of a context does not pair a command with another one. -/
theorem change_paired (args : List Bytes) (expire context other : Int)
    (proc : Proc) :
    PairedChange (Proc.change args expire context proc)
      (Proc.change args expire other proc) := by
  have setting : ∀ misused table time,
      PairedChange (settingChange misused table args time)
        (settingChange misused table args time) :=
    fun misused table time =>
      settingChange_paired misused table args (fun _ => rfl)
  cases proc with
  | arraySet => exact setting _ _ _
  | arrayDel => exact deletingChange_paired _ _ _
  | arrayMod => exact modifyingChange_paired _ _
  | rbtreeSet => exact setting _ _ _
  | rbtreeDel => exact deletingChange_paired _ _ _
  | rbtreeMod => exact modifyingChange_paired _ _
  | hashSet => exact setting _ _ _
  | hashDel => exact deletingChange_paired _ _ _
  | hashMod => exact modifyingChange_paired _ _
  | keep => exact setting _ _ _
  | setctx => exact settingChange_paired _ _ _ nofun
  | delctx => exact deletingChange_paired _ _ _
  | setrec => exact setting _ _ _
  | setidx => exact PairedChange.unless (.append _ _) _
  | skipSet => exact setting _ _ _
  | skipDel => exact deletingChange_paired _ _ _
  | skipMod => exact modifyingChange_paired _ _
  | zadd =>
      exact PairedChange.unless (PairedChange.unless (.zadd _ _) _) _
  | _ => exact .keep

theorem commandChange_paired (args : List Bytes)
    (expire context other : Int) :
    PairedChange (commandChange args expire context)
      (commandChange args expire other) := by
  rw [commandChange, commandChange]
  cases commandNamed (args.getD 0 []) with
  | none => exact .keep
  | some command => exact change_paired args expire context other command.proc

/-- The value that a command leaves under a key of a table. -/
def commandLeaves (table : Table) (key : Bytes) (old : Option Bytes)
    (args : List Bytes) : Option Bytes :=
  Change.leaves table key old (commandChange args 0 0)

/-- What a command leaves under a key, whatever the clock shows. -/
theorem command_value {tables : Tables} (valid : Valid tables)
    (roomy : Roomy tables) (args : List Bytes) (context : Int)
    (level : Level) {table : Table} (keyed : table ≠ .array) (key : Bytes) :
    value ((commandChange args 0 context).apply level tables) table key =
      commandLeaves table key (value tables table key) args := by
  have paired := commandChange_paired args 0 context 0
  rw [apply_value valid roomy paired level keyed key, commandLeaves]
  exact PairedChange.leaves_eq paired _ _ _

theorem commandLeaves_unlogged {args : List Bytes}
    (unlogged : isWriteName (args.getD 0 []) = false) (table : Table)
    (key : Bytes) (old : Option Bytes) :
    commandLeaves table key old args = old := by
  rw [commandLeaves, commandChange_unlogged unlogged]
  rfl

/-- Only the commands that are logged leave a value. -/
theorem foldl_commandLeaves_logged (table : Table) (key : Bytes)
    (commands : List (List Bytes)) (old : Option Bytes) :
    (commands.flatMap loggedPart).foldl (commandLeaves table key) old =
      commands.foldl (commandLeaves table key) old := by
  induction commands generalizing old with
  | nil => rfl
  | cons args rest induction =>
      rw [List.flatMap_cons, List.foldl_append, List.foldl_cons, induction,
        loggedPart]
      split_ifs with logged
      · rfl
      · rw [commandLeaves_unlogged (Bool.not_eq_true _ ▸ logged)]
        rfl

/-! ## The keys and sizes of a command -/

/-- A change touches no hash table outside a key, and what it stores is
short. -/
structure Fitted (args : List Bytes) (change : Change) : Prop where
  named : ∀ name key old, key ≠ args.getD 1 [] →
    Change.leaves (.hash name) key old change = old
  short : ∀ table key old stored,
    (respEncode args).length < 2 ^ 31 →
    Change.leaves table key old change = some stored →
      (old ≠ none ∨ key.length < 2 ^ 31) ∧
        stored.length ≤ (old.getD []).length + (respEncode args).length

section Fitting

variable {args : List Bytes}

theorem fitted_keep : Fitted args .keep := by
  refine ⟨fun _ _ _ _ => rfl, ?_⟩
  intro table key old stored _ left
  have held : old = some stored := left
  refine ⟨Or.inl (by simp [held]), ?_⟩
  rw [held, Option.getD_some]
  exact Nat.le_add_right _ _

theorem Fitted.unless {change : Change} (fitted : Fitted args change)
    (misused : Bool) : Fitted args (Change.unless misused change) := by
  cases misused with
  | false => exact fitted
  | true => exact fitted_keep

/-- A call under the first argument that leaves nothing or an argument. -/
theorem fitted_operate {operation : Operation} (table : Table)
    (key : operation.key = args.getD 1 [])
    (leaves : ∀ old, Operation.leaves old operation = none ∨
      ∃ index, Operation.leaves old operation = some (args.getD index [])) :
    Fitted args (.operate table operation) := by
  constructor
  · intro name other old apart
    refine if_neg ?_
    rintro ⟨-, rfl⟩
    exact apart key
  · intro wanted other old stored small left
    rw [Change.leaves] at left
    split_ifs at left with here
    · rcases leaves old with nothing | ⟨index, something⟩
      · rw [nothing] at left
        cases left
      · rw [something] at left
        cases left
        have keyed := arg_length_lt args 1
        have valued := arg_length_lt args index
        refine ⟨Or.inr ?_, by omega⟩
        rw [← here.2, key]
        omega
    · exact fitted_keep.short wanted other old stored small left

theorem fitted_set (table : Table) (index : Nat) (time : Int) :
    Fitted args
      (.operate table (.set (args.getD 1 []) (args.getD index []) time)) :=
  fitted_operate table rfl (fun _ => Or.inr ⟨index, rfl⟩)

theorem fitted_mod (table : Table) (index : Nat) (time : Int) :
    Fitted args
      (.operate table (.mod (args.getD 1 []) (args.getD index []) time)) :=
  fitted_operate table rfl (fun _ => Or.inr ⟨index, rfl⟩)

theorem fitted_del (table : Table) :
    Fitted args (.operate table (.del (args.getD 1 []))) :=
  fitted_operate table rfl (fun _ => Or.inl rfl)

theorem fitted_append (index : Nat) :
    Fitted args (.append (args.getD 1 []) (args.getD index [])) := by
  constructor
  · intro name other old apart
    refine if_neg ?_
    rintro ⟨-, rfl, -⟩
    exact apart rfl
  · intro wanted other old stored small left
    rw [Change.leaves] at left
    split_ifs at left with here
    · have keyed := arg_length_lt args 1
      have valued := arg_length_lt args index
      rw [here.2.1] at keyed
      refine ⟨Or.inr (by omega), ?_⟩
      rw [addedValue] at left
      split_ifs at left
      · rw [left, Option.getD_some]
        omega
      · cases left
        rw [appended]
        split_ifs
        · omega
        · rw [List.length_append, List.length_cons]
          omega
    · exact fitted_keep.short wanted other old stored small left

theorem fitted_zadd (timestamp : Int) (id : Bytes) :
    Fitted args (.zadd timestamp id) := by
  constructor
  · intro name other old _
    rfl
  · intro wanted other old stored small left
    rw [Change.leaves] at left
    split_ifs at left with here
    · cases left
      refine ⟨Or.inr ?_, Nat.zero_le _⟩
      have made := here.2
      rw [zsetKey] at made
      split_ifs at made
      rw [zsetMakeKey] at made
      split_ifs at made with long
      cases made
      rw [List.length_append]
      omega
    · exact fitted_keep.short wanted other old stored small left

theorem fitted_change (expire context : Int) (proc : Proc) :
    Fitted args (Proc.change args expire context proc) := by
  have setting : ∀ misused table time,
      Fitted args (settingChange misused table args time) :=
    fun misused table time => (fitted_set table 2 time).unless misused
  have deleting : ∀ misused table,
      Fitted args (deletingChange misused table args) :=
    fun misused table => (fitted_del table).unless misused
  have modifying : ∀ table, Fitted args (modifyingChange table args) :=
    fun table => (fitted_mod table 2 0).unless _
  cases proc with
  | arraySet => exact setting _ _ _
  | arrayDel => exact deleting _ _
  | arrayMod => exact modifying _
  | rbtreeSet => exact setting _ _ _
  | rbtreeDel => exact deleting _ _
  | rbtreeMod => exact modifying _
  | hashSet => exact setting _ _ _
  | hashDel => exact deleting _ _
  | hashMod => exact modifying _
  | keep => exact setting _ _ _
  | setctx => exact setting _ _ _
  | delctx => exact deleting _ _
  | setrec => exact setting _ _ _
  | setidx => exact (fitted_append 2).unless _
  | skipSet => exact setting _ _ _
  | skipDel => exact deleting _ _
  | skipMod => exact modifying _
  | zadd => exact ((fitted_zadd _ _).unless _).unless _
  | _ => exact fitted_keep

theorem fitted_command (args : List Bytes) (expire context : Int) :
    Fitted args (commandChange args expire context) := by
  rw [commandChange]
  cases commandNamed (args.getD 0 []) with
  | none => exact fitted_keep
  | some command => exact fitted_change expire context command.proc

end Fitting

/-! ## Runs of commands -/

/-- Every key of a hash table is one of some names. -/
def Named (names : List Bytes) (tables : Tables) : Prop :=
  ∀ name key, value tables (.hash name) key ≠ none → key ∈ names

theorem named_create (names : List Bytes) : Named names Tables.create :=
  fun name key held => absurd (value_create (.hash name) key) held

/-- Few names leave room in the hash tables. -/
theorem Named.roomy {names : List Bytes} {tables : Tables}
    (named : Named names tables) (valid : Valid tables)
    (few : names.length < slotLimit) :
    Roomy tables := by
  intro name
  have inside : { key | Tables.map tables (.hash name) key ≠ none } ⊆
      (names.toFinset : Set Bytes) := by
    intro key held
    rw [Finset.mem_coe, List.mem_toFinset]
    refine named name key ?_
    rw [value, Ne, Option.map_eq_none_iff]
    exact held
  have count := Set.ncard_le_ncard inside (Finset.finite_toSet _)
  rw [Set.ncard_coe_finset] at count
  have distinct := List.toFinset_card_le names
  have size := map_hash_size valid name
  rw [Contents.size] at size
  omega

/-- The values that a run without expiry times leaves, key by key. -/
theorem values_of_run {names : List Bytes} (few : names.length < slotLimit)
    {before after : Tables} {commands : List (List Bytes)}
    (ran : Produces (fun _ expire _ => expire = 0) before commands after)
    (valid : Valid before) (named : Named names before)
    (listed : ∀ args ∈ commands, isWriteName (args.getD 0 []) = true →
      args.getD 1 [] ∈ names) :
    Valid after ∧ Named names after ∧
      ∀ {table}, table ≠ .array → ∀ key,
        value after table key =
          commands.foldl (commandLeaves table key)
            (value before table key) := by
  induction ran with
  | nil tables => exact ⟨valid, named, fun _ _ => rfl⟩
  | @cons before after args rest expire context level timely tail induction =>
      subst timely
      have roomy := named.roomy valid few
      have left : ∀ {table}, table ≠ .array → ∀ key,
          value ((commandChange args 0 context).apply level before) table
              key =
            commandLeaves table key (value before table key) args :=
        fun keyed key =>
          command_value valid roomy args context level keyed key
      have still : Named names
          ((commandChange args 0 context).apply level before) := by
        intro name key held
        have keyed : Table.hash name ≠ .array := nofun
        rw [left keyed key] at held
        by_cases own : key = args.getD 1 []
        · by_cases logged : isWriteName (args.getD 0 []) = true
          · rw [own]
            exact listed args List.mem_cons_self logged
          · rw [commandLeaves_unlogged
              (Bool.not_eq_true _ ▸ logged)] at held
            exact named name key held
        · rw [commandLeaves,
            (fitted_command args 0 0).named name key _ own] at held
          exact named name key held
      obtain ⟨final, names, values⟩ := induction
        ((commandChange args 0 context).apply_valid valid level) still
        (fun other member => listed other (List.mem_cons_of_mem _ member))
      refine ⟨final, names, ?_⟩
      intro table keyed key
      rw [values keyed, left keyed, List.foldl_cons]

/-- What a run leaves under a key of empty tables is short. -/
theorem foldl_commandLeaves_short {commands : List (List Bytes)}
    (small : ∀ args ∈ commands, (respEncode args).length < 2 ^ 31)
    {table : Table} {key : Bytes} {old : Option Bytes} {stored : Bytes}
    (left : commands.foldl (commandLeaves table key) old = some stored) :
    (old ≠ none ∨ key.length < 2 ^ 31) ∧
      stored.length ≤ (old.getD []).length + (respStream commands).length := by
  induction commands generalizing old with
  | nil =>
      have held : old = some stored := left
      refine ⟨Or.inl (by simp [held]), ?_⟩
      rw [held, Option.getD_some]
      exact Nat.le_add_right _ _
  | cons args rest induction =>
      have frame := small args List.mem_cons_self
      obtain ⟨keyed, valued⟩ := induction
        (fun other member => small other (List.mem_cons_of_mem _ member)) left
      rw [respStream_cons, List.length_append]
      have fitted := fitted_command args 0 0
      cases here : commandLeaves table key old args with
      | none =>
          rw [here] at keyed valued
          refine ⟨Or.inr (keyed.resolve_left (fun held => held rfl)), ?_⟩
          rw [Option.getD_none, List.length_nil] at valued
          omega
      | some found =>
          obtain ⟨first, second⟩ :=
            fitted.short table key old found frame here
          rw [here, Option.getD_some] at valued
          exact ⟨first, by omega⟩

/-! ## Repeated runs -/

/-- An id that is on a list. -/
def Listed (id : Bytes) (list : Option Bytes) : Prop :=
  list.getD [] ≠ [] ∧ id ∈ pieces 44 (list.getD [])

/-- An addition makes no difference exactly to a list with the id. -/
theorem addedValue_eq_iff {id : Bytes} (proper : id ≠ [])
    (list : Option Bytes) :
    addedValue list id = list ↔ Listed id list := by
  rw [addedValue]
  split_ifs with listed
  · exact iff_of_true rfl listed
  · refine iff_of_false ?_ listed
    intro same
    have text := congrArg (Option.getD · []) same
    rw [Option.getD_some] at text
    have lengths := congrArg List.length text
    rw [appended] at lengths
    split_ifs at lengths with empty
    · rw [empty] at lengths
      exact proper (List.eq_nil_of_length_eq_zero lengths)
    · rw [List.length_append, List.length_cons] at lengths
      omega

/-- What was on a list stays on it. -/
theorem Listed.added {id : Bytes} {list : Option Bytes}
    (listed : Listed id list) (other : Bytes) :
    Listed id (addedValue list other) := by
  rw [addedValue]
  split_ifs
  · exact listed
  · rw [Listed, Option.getD_some, appended, if_neg listed.1, pieces_append]
    exact ⟨List.append_ne_nil_of_left_ne_nil listed.1 _,
      List.mem_append_left _ listed.2⟩

/-- An id without a comma is on the list that it was added to. -/
theorem listed_added {id : Bytes} (proper : id ≠ [])
    (free : (44 : UInt8) ∉ id) (list : Option Bytes) :
    Listed id (addedValue list id) := by
  rw [addedValue]
  split_ifs with listed
  · exact listed
  · rw [Listed, Option.getD_some, appended]
    split_ifs
    · rw [pieces_of_free free]
      exact ⟨proper, List.mem_singleton_self id⟩
    · rw [pieces_append, pieces_of_free free]
      exact ⟨List.append_ne_nil_of_right_ne_nil _ (List.cons_ne_nil _ _),
        List.mem_append_right _ (List.mem_singleton_self id)⟩

/-- The id of a `SETIDX` contains no comma. -/
def CommaFree (args : List Bytes) : Prop :=
  ∀ command, commandNamed (args.getD 0 []) = some command →
    command.proc = .setidx → (44 : UInt8) ∉ args.getD 2 []

/-- The changes that commands make on the lists of ids. -/
theorem change_lists {args : List Bytes} {expire context : Int}
    {proc : Proc} :
    (∀ operation, Proc.change args expire context proc ≠
        .operate (.hash .hash4) operation) ∧
      ∀ keyword id,
        Proc.change args expire context proc = .append keyword id →
          proc = .setidx ∧ id = args.getD 2 [] := by
  have unless_append : ∀ {misused change keyword id},
      Change.unless misused change = .append keyword id →
        change = .append keyword id := by
    intro misused change keyword id here
    rw [Change.unless] at here
    split_ifs at here
    exact here
  constructor
  · intro operation here
    cases proc
    case zadd => cases operate_of_unless (operate_of_unless here)
    all_goals first | cases here | cases operate_of_unless here
  · intro keyword id here
    cases proc
    case setidx =>
      cases unless_append here
      exact ⟨rfl, rfl⟩
    case zadd => cases unless_append (unless_append here)
    all_goals first | cases here | cases unless_append here

/-- What a command does to a list of ids. -/
theorem commandLeaves_list {args : List Bytes} (free : CommaFree args)
    (key : Bytes) :
    (∀ old, commandLeaves (.hash .hash4) key old args = old) ∨
      ∃ id, id ≠ [] ∧ (44 : UInt8) ∉ id ∧
        ∀ old, commandLeaves (.hash .hash4) key old args =
          addedValue old id := by
  rw [CommaFree] at free
  unfold commandLeaves
  rw [commandChange]
  cases found : commandNamed (args.getD 0 []) with
  | none => exact Or.inl (fun _ => rfl)
  | some command =>
      dsimp only
      obtain ⟨calls, additions⟩ := @change_lists args 0 0 command.proc
      cases change : Proc.change args 0 0 command.proc with
      | keep => exact Or.inl (fun _ => rfl)
      | operate table operation =>
          left
          intro old
          refine if_neg ?_
          rintro ⟨rfl, -⟩
          exact calls operation change
      | append keyword id =>
          obtain ⟨setidx, same⟩ := additions keyword id change
          by_cases here : keyword = key ∧ id ≠ []
          · right
            refine ⟨id, here.2, ?_, ?_⟩
            · rw [same]
              exact free command found setidx
            · exact fun old => if_pos ⟨rfl, here⟩
          · left
            exact fun old => if_neg (fun all => here all.2)
      | zadd timestamp id => exact Or.inl (fun _ => rfl)

/-- In every other table a command overwrites a value or leaves it alone. -/
theorem commandLeaves_plain (args : List Bytes) {table : Table}
    (other : table ≠ .hash .hash4) (key : Bytes) :
    (∀ old, commandLeaves table key old args = old) ∨
      ∀ old another, commandLeaves table key old args =
        commandLeaves table key another args := by
  unfold commandLeaves
  have paired := commandChange_paired args 0 0 0
  cases change : commandChange args 0 0 with
  | keep => exact Or.inl (fun _ => rfl)
  | operate touched operation =>
      rw [change] at paired
      by_cases here : touched = table ∧ operation.key = key
      · right
        intro old another
        rw [Change.leaves, Change.leaves, if_pos here, if_pos here]
        cases paired with
        | operate _ paired => cases paired <;> rfl
      · exact Or.inl (fun _ => if_neg here)
  | append keyword id => exact Or.inl (fun _ => if_neg (fun all => other all.1))
  | zadd timestamp id =>
      by_cases here : table = .skip ∧ zsetKey timestamp id = some key
      · right
        intro old another
        rw [Change.leaves, Change.leaves, if_pos here, if_pos here]
      · exact Or.inl (fun _ => if_neg here)

/-- Repeating a run of commands makes no difference to any value. -/
theorem foldl_commandLeaves_repeated {commands : List (List Bytes)}
    (free : ∀ args ∈ commands, CommaFree args) (table : Table)
    (key : Bytes) (old : Option Bytes) :
    commands.foldl (commandLeaves table key)
        (commands.foldl (commandLeaves table key) old) =
      commands.foldl (commandLeaves table key) old := by
  by_cases lists : table = .hash .hash4
  · subst lists
    refine foldl_settling ?_ ?_ old
    · intro args member other inside state settled
      rw [Settled] at settled ⊢
      rcases commandLeaves_list (free args member) key with
        keeps | ⟨id, proper, _, adds⟩
      · exact keeps _
      · rw [adds, addedValue_eq_iff proper] at settled ⊢
        rcases commandLeaves_list (free other inside) key with
          still | ⟨another, _, _, added⟩
        · rw [still]
          exact settled
        · rw [added]
          exact settled.added another
    · intro args member state
      rw [Settled]
      rcases commandLeaves_list (free args member) key with
        keeps | ⟨id, proper, plain, adds⟩
      · exact keeps _
      · rw [adds, adds, addedValue_eq_iff proper]
        exact listed_added proper plain state
  · exact foldl_overwriting
      (fun args _ => commandLeaves_plain args lists key) old

end Kivo.Persistence.WrittenValues
