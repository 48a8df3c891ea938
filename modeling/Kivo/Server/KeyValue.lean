import Kivo.Server.ReadBack

/-!
# What the families of commands are for

The commands of a family store values under keys.  Here their meaning is stated
on maps without a layout, a capacity or a buffer, down to the bytes of the
replies.  With the TTL switched off the server serves the commands of all
families as these maps do, and every other request leaves the maps alone, until
a table is full.  The families differ in nothing but their capacity, in the
empty key, which the array loses, and in the keys that `ZADD` stores in the
skip list.
-/

namespace Kivo.Server.KeyValue

open Kivo.Clib.Memory
open Kivo.Engine.Data
open Kivo.Engine.KeyMap
open Kivo.Engine.ArrayEngine
open Kivo.Engine.HashTable (slotLimit)
open Kivo.Engine.SkipRuns (Level)
open Kivo.Engine.Store
open Kivo.Engine.Maps
open Kivo.Resp.Frame
open Kivo.Resp.Reply
open Kivo.Resp.Canonical (arg_length_lt)
open Kivo.Server.State
open Kivo.Server.Commands
open Kivo.Server.CommandTable
open Kivo.Server.Requests
open Kivo.Server.Changes
open Kivo.Server.Serving
open Kivo.Server.ReadBack

/-! ## Commands of a family -/

/-- The family and the kind of a handler. -/
def Proc.family : Proc → Option (Family × Kind)
  | .arraySet => some (.array, .set)
  | .arrayGet => some (.array, .get)
  | .arrayDel => some (.array, .del)
  | .arrayMod => some (.array, .mod)
  | .arrayExists => some (.array, .exist)
  | .rbtreeSet => some (.rbtree, .set)
  | .rbtreeGet => some (.rbtree, .get)
  | .rbtreeDel => some (.rbtree, .del)
  | .rbtreeMod => some (.rbtree, .mod)
  | .rbtreeExists => some (.rbtree, .exist)
  | .hashSet => some (.hash, .set)
  | .hashGet => some (.hash, .get)
  | .hashDel => some (.hash, .del)
  | .hashMod => some (.hash, .mod)
  | .hashExists => some (.hash, .exist)
  | .skipSet => some (.skip, .set)
  | .skipGet => some (.skip, .get)
  | .skipDel => some (.skip, .del)
  | .skipMod => some (.skip, .mod)
  | .skipExists => some (.skip, .exist)
  | _ => none

/-- The family and the kind of the command that a request names. -/
def familyCommand (args : List Bytes) : Option (Family × Kind) :=
  (commandNamed (args.getD 0 [])).bind
    (fun command => Proc.family command.proc)

theorem family_handler {proc : Proc} {family : Family} {kind : Kind}
    (named : Proc.family proc = some (family, kind)) :
    family.handler kind = proc := by
  cases proc <;> cases named <;> rfl

theorem handler_family (family : Family) (kind : Kind) :
    Proc.family (family.handler kind) = some (family, kind) := by
  cases family <;> cases kind <;> rfl

theorem executes_iff {args : List Bytes} {family : Family} {kind : Kind} :
    Executes args (family.handler kind) ↔
      familyCommand args = some (family, kind) := by
  rw [familyCommand, Option.bind_eq_some_iff]
  constructor
  · rintro ⟨command, found, same⟩
    exact ⟨command, found, by rw [same, handler_family]⟩
  · rintro ⟨command, found, named⟩
    exact ⟨command, found, (family_handler named).symm⟩

/-! ## Maps -/

/-- The values under the keys of every family. -/
def Maps : Type :=
  Family → Bytes → Option Bytes

/-- No values. -/
def Maps.empty : Maps :=
  fun _ _ => none

/-- Store a value under a key, or remove the key. -/
def Maps.put (maps : Maps) (family : Family) (key : Bytes)
    (value : Option Bytes) : Maps :=
  fun other own =>
    if other = family ∧ own = key then value else maps other own

theorem Maps.put_other (maps : Maps) {family other : Family}
    (apart : other ≠ family) {key : Bytes} {value : Option Bytes} :
    maps.put family key value other = maps other := by
  funext own
  exact if_neg (fun both => apart both.1)

/-- The values are of lengths that an `int` can hold. -/
def Maps.Short (maps : Maps) : Prop :=
  ∀ family key value, maps family key = some value → value.length < 2 ^ 31

theorem Maps.Short.put {maps : Maps} (short : maps.Short) {family : Family}
    {key : Bytes} {value : Option Bytes}
    (own : ∀ stored, value = some stored → stored.length < 2 ^ 31) :
    (maps.put family key value).Short := by
  intro other key' stored holds
  rw [Maps.put] at holds
  split_ifs at holds
  · exact own stored holds
  · exact short other key' stored holds

theorem Maps.put_own (maps : Maps) (family : Family) (key own : Bytes)
    (value : Option Bytes) :
    maps.put family key value family own =
      if own = key then value else maps family own := by
  simp [Maps.put]

/-- The reply that carries a value; an empty one looks like a missing one. -/
def valueReply (value : Option Bytes) : Bytes :=
  if value.getD [] = [] then ascii "$-1\r\n" else bulk (value.getD [])

/-- A command of a family, and the bytes of its reply. -/
def Maps.serve (maps : Maps) (family : Family) :
    Kind → List Bytes → Maps × Bytes
  | .set, _ :: key :: value :: _ =>
      (maps.put family key (some value), ascii "+OK\r\n")
  | .mod, _ :: key :: value :: _ =>
      (maps.put family key (some value), ascii "+OK\r\n")
  | .get, _ :: key :: _ => (maps, valueReply (maps family key))
  | .del, _ :: key :: _ =>
      (maps.put family key none,
        if (maps family key).isSome then ascii "+OK\r\n"
        else ascii "$-1\r\n")
  | .exist, _ :: key :: _ =>
      (maps,
        if (maps family key).isSome then ascii "-ERR key already exists\r\n"
        else ascii "$-1\r\n")
  | _, _ => (maps, ascii "-ERR syntax error\r\n")

/-- A request; only the commands of the families are about the maps. -/
def Maps.step (maps : Maps) (args : List Bytes) : Maps × Bytes :=
  match familyCommand args with
  | some (family, kind) => maps.serve family kind args
  | none => (maps, [])

/-- The key that a request stores a value under. -/
def settingKey (args : List Bytes) : Option (Family × Bytes) :=
  match familyCommand args, args with
  | some (family, .set), _ :: key :: _ :: _ => some (family, key)
  | some (family, .mod), _ :: key :: _ :: _ => some (family, key)
  | _, _ => none

/--
The requests fit the server: the keys that they store values under are few
enough for the array and the hash table, none of them is the empty key of the
array, and no `ZADD` stores under a key that a command of the skip list is
about.
-/
structure Fitting (keys : Family → Finset Bytes) (sent : List Bytes → Prop) :
    Prop where
  inside : ∀ args, sent args → ∀ family key,
    settingKey args = some (family, key) → key ∈ keys family
  proper : ∀ args, sent args → settingKey args ≠ some (.array, [])
  arrayRoom : (keys .array).card ≤ kvsArraySize
  hashRoom : (keys .hash).card < slotLimit
  unmixed : ∀ args, sent args → ∀ kind,
    familyCommand args = some (.skip, kind) →
      ∀ other, sent other → ¬ AddsKey other (args.getD 1 [])

/-! ## Tables that serve maps -/

/-- The families have tables of their own. -/
theorem table_injective {family other : Family}
    (same : family.table = other.table) : family = other := by
  cases family <;> cases other <;> first | rfl | cases same

/--
The tables hold what the maps say, at least under the keys of the skip list
that are watched.  The array has no slots out of sight, and the keys stay
within the given ones.
-/
structure Serves (keys : Family → Finset Bytes) (watched : Bytes → Prop)
    (tables : Tables) (maps : Maps) : Prop where
  valid : Valid tables
  blanks : (Tables.view tables .array).blanks = 0
  agrees : ∀ family key, (family = .skip → watched key) →
    (Tables.map tables family.table key).map Item.value = maps family key
  short : maps.Short
  within : ∀ family, family ≠ .skip →
    ∀ key, Tables.map tables family.table key ≠ none → key ∈ keys family

theorem serves_create (keys : Family → Finset Bytes)
    (watched : Bytes → Prop) :
    Serves keys watched Tables.create Maps.empty := by
  refine ⟨valid_create, rfl, ?_, ?_, ?_⟩
  · intro family key _
    rw [map_create]
    rfl
  · intro family key value holds
    cases holds
  · intro family _ key present
    rw [map_create] at present
    exact absurd rfl present

section Steps

variable {keys : Family → Finset Bytes} {watched : Bytes → Prop}
  {tables : Tables} {maps : Maps}
  (serves : Serves keys watched tables maps)

include serves

/-- There is room for every key of the given ones. -/
theorem Serves.room (arrayRoom : (keys .array).card ≤ kvsArraySize)
    (hashRoom : (keys .hash).card < slotLimit) {family : Family}
    {key : Bytes} (inside : key ∈ keys family) :
    ¬ (Tables.view tables family.table).NoRoom key family.table := by
  cases family with
  | array =>
      rintro ⟨missing, full⟩
      have size := size_lt_card (serves.within .array (by decide)) inside
        missing
      have none := serves.blanks
      change kvsArraySize ≤ (Tables.map tables .array).size +
        (Tables.view tables .array).blanks at full
      change (Tables.map tables .array).size < _ at size
      omega
  | rbtree => exact id
  | hash =>
      intro full
      have size := size_le_card (serves.within .hash (by decide))
      change (Tables.map tables (.hash .hash)).size = _ at full
      change (Tables.map tables (.hash .hash)).size ≤ _ at size
      omega
  | skip => exact id

section Calls

variable (arrayRoom : (keys .array).card ≤ kvsArraySize)
  (hashRoom : (keys .hash).card < slotLimit) (level : Level)

include arrayRoom hashRoom

/-- A call on the table of a family that the maps follow. -/
theorem Serves.operate {family : Family} {operation : Operation}
    {contents : Contents} {answer : Answer}
    (stepped : (Tables.map tables family.table).step false operation =
      (contents, answer))
    (carried : Operation.Sets operation →
      operation.key ∈ keys family ∧ ¬ Loses family.table operation.key)
    {after : Maps} (short : after.Short)
    (others : ∀ other, other ≠ family → after other = maps other)
    (agrees : ∀ key, (family = .skip → watched key) →
      (contents key).map Item.value = after family key)
    (within : ∀ key, contents key ≠ none →
      Tables.map tables family.table key ≠ none ∨ key ∈ keys family) :
    Serves keys watched
        (tables.operate false level family.table operation).1 after ∧
      (tables.operate false level family.table operation).2 = answer := by
  have step := operate_view serves.valid false level family.table operation
  rw [View.step, if_neg (fun both => serves.room arrayRoom hashRoom
    (carried both.1).1 both.2), if_neg (fun both =>
    (carried both.1).2 both.2), show (Tables.view tables
    family.table).map.step false operation = _ from stepped] at step
  obtain ⟨view, answered⟩ := Prod.ext_iff.mp step
  have map : Tables.map
      (tables.operate false level family.table operation).1 family.table =
        contents :=
    congrArg View.map view
  refine ⟨⟨serves.valid.operate false level family.table operation, ?_, ?_,
    short, ?_⟩, answered⟩
  · by_cases here : family = .array
    · subst here
      exact (congrArg View.blanks view).trans serves.blanks
    · refine Eq.trans ?_ serves.blanks
      cases family <;> first | rfl | exact absurd rfl here
  · intro other key plain
    by_cases here : other = family
    · subst here
      rw [map]
      exact agrees key plain
    · rw [others other here, operate_other false level tables
        (fun same => here (table_injective same)) operation]
      exact serves.agrees other key plain
  · intro other proper key present
    by_cases here : other = family
    · subst here
      rw [map] at present
      exact (within key present).elim (serves.within other proper key) id
    · rw [operate_other false level tables (fun same => here
        (table_injective same)) operation] at present
      exact serves.within other proper key present

/-- A call that stores a value. -/
theorem Serves.store {family : Family} {operation : Operation}
    {key value : Bytes}
    (stores : operation = .set key value 0 ∨ operation = .mod key value 0)
    (inside : key ∈ keys family) (proper : ¬ Loses family.table key)
    (small : value.length < 2 ^ 31) :
    Serves keys watched
        (tables.operate false level family.table operation).1
        (maps.put family key (some value)) ∧
      (tables.operate false level family.table operation).2 = .status 0 := by
  have stepped : (Tables.map tables family.table).step false operation =
      ((Tables.map tables family.table).set key
        { value := value, expireTime := 0 }, .status 0) := by
    rcases stores with rfl | rfl <;> rfl
  refine serves.operate arrayRoom hashRoom level stepped ?_
    (serves.short.put (fun stored same => Option.some.inj same ▸ small))
    (fun other apart => maps.put_other apart) ?_ ?_
  · rcases stores with rfl | rfl <;> exact fun _ => ⟨inside, proper⟩
  · intro other plain
    rw [Contents.set, Maps.put_own]
    split_ifs
    · rfl
    · exact serves.agrees family other plain
  · intro other present
    rw [Contents.set] at present
    split_ifs at present with same
    · exact Or.inr (same ▸ inside)
    · exact Or.inl present

/-- A call that removes a key. -/
theorem Serves.remove {family : Family} {key : Bytes}
    (plain : family = .skip → watched key) :
    Serves keys watched
        (tables.operate false level family.table (.del key)).1
        (maps.put family key none) ∧
      (tables.operate false level family.table (.del key)).2 =
        .status (if (maps family key).isSome then 0 else 1) := by
  have stepped : (Tables.map tables family.table).step false (.del key) =
      ((Tables.map tables family.table).erase key,
        .status (if (maps family key).isSome then 0 else 1)) := by
    rw [← serves.agrees family key plain, Option.isSome_map]
    rfl
  refine serves.operate arrayRoom hashRoom level stepped
    (fun sets => absurd sets id) (serves.short.put (fun _ absent => nomatch
    absent)) (fun other apart => maps.put_other apart) ?_ ?_
  · intro other plain
    rw [Contents.erase, Maps.put_own]
    split_ifs
    · rfl
    · exact serves.agrees family other plain
  · intro other present
    rw [Contents.erase] at present
    split_ifs at present with same
    · exact absurd rfl present
    · exact Or.inl present

/-- A call that reads leaves the maps alone. -/
theorem Serves.read {family : Family} {operation : Operation}
    {answer : Answer} (reads : ¬ Operation.Sets operation)
    (stepped : (Tables.map tables family.table).step false operation =
      (Tables.map tables family.table, answer)) :
    Serves keys watched
        (tables.operate false level family.table operation).1 maps ∧
      (tables.operate false level family.table operation).2 = answer :=
  serves.operate arrayRoom hashRoom level stepped
    (fun sets => absurd sets reads) serves.short (fun _ _ => rfl)
    (fun other plain => serves.agrees family other plain)
    (fun _ present => Or.inl present)

theorem Serves.get {family : Family} {key : Bytes}
    (plain : family = .skip → watched key) (now : Int) :
    Serves keys watched
        (tables.operate false level family.table (.get now key)).1 maps ∧
      (tables.operate false level family.table (.get now key)).2 =
        .value (maps family key) := by
  refine serves.read arrayRoom hashRoom level id ?_
  rw [← serves.agrees family key plain, Contents.step, purge_false]

theorem Serves.exist {family : Family} {key : Bytes}
    (plain : family = .skip → watched key) (now : Int) :
    Serves keys watched
        (tables.operate false level family.table (.exist now key)).1 maps ∧
      (tables.operate false level family.table (.exist now key)).2 =
        .status (if (maps family key).isSome then 0 else 1) := by
  refine serves.read arrayRoom hashRoom level id ?_
  rw [← serves.agrees family key plain, Option.isSome_map, Contents.step,
    purge_false]

end Calls

end Steps

/-! ## Requests -/

/-- What a handler asks of its table when the TTL is switched off. -/
def Kind.asks (now : Int) : Kind → List Bytes → Option Operation
  | .set, _ :: key :: value :: _ => some (.set key value 0)
  | .get, _ :: key :: _ => some (.get now key)
  | .del, _ :: key :: _ => some (.del key)
  | .mod, _ :: key :: value :: _ => some (.mod key value 0)
  | .exist, _ :: key :: _ => some (.exist now key)
  | _, _ => none

section Requests

variable {flags : Flags} (off : flags.enableTtl = false)
  (globals : Globals Store) (request : Request)

include off

/-- What a handler asks of its table, by the arguments of its request. -/
theorem operation_asks (kind : Kind) :
    kind.operation (request.call flags globals) =
      Kind.asks ((request.call flags globals).world.now 0) kind
        request.args := by
  have arrived := request.arrived flags globals
  have untimed : expireOf (request.call flags globals) = 0 := by
    rw [expireOf, if_neg]
    rw [show (request.call flags globals).flags.enableTtl = false from off]
    exact Bool.false_ne_true
  have two : (request.call flags globals).argc < 2 ↔
      request.args.length < 2 := by
    simpa using argc_lt arrived 2
  have three : (request.call flags globals).argc < 3 ↔
      request.args.length < 3 := by
    simpa using argc_lt arrived 3
  have arg := arg_eq arrived
  generalize request.call flags globals = call at *
  generalize request.args = args at *
  cases kind <;>
    · rw [Kind.operation]
      rcases args with - | ⟨name, - | ⟨key, - | ⟨value, rest⟩⟩⟩ <;>
        simp [Kind.asks, two, three, arg, untimed]

end Requests

/-- A misused command leaves the maps alone. -/
theorem serve_misused {now : Int} {kind : Kind} {args : List Bytes}
    (misused : Kind.asks now kind args = none) (maps : Maps)
    (family : Family) :
    maps.serve family kind args = (maps, ascii "-ERR syntax error\r\n") := by
  cases kind <;>
    · rcases args with - | ⟨name, - | ⟨key, - | ⟨value, rest⟩⟩⟩ <;>
        first | rfl | cases misused

/-- The reply of a getting handler. -/
theorem respPack_value {value : Option Bytes}
    (small : ∀ stored, value = some stored → stored.length < 2 ^ 31) :
    respPack (kvsSetReplyBody value) = valueReply value := by
  cases value with
  | none => rfl
  | some value =>
      rw [valueReply, kvsSetReplyBody, Option.getD_some]
      split_ifs with nonempty empty empty
      · rw [empty] at nonempty
        exact absurd nonempty (Nat.lt_irrefl 0)
      · exact respPack_bulk (small value rfl)
      · rfl
      · exact absurd (List.length_pos_of_ne_nil empty) nonempty

/-- The keys that no request adds to the time index. -/
def Unadded (sent : List Bytes → Prop) (key : Bytes) : Prop :=
  ∀ args, sent args → ¬ AddsKey args key

/-- A change that is about no key of the array leaves it as it is. -/
theorem Change.apply_array (change : Change) (level : Level)
    (tables : Tables)
    (apart : ∀ key, ¬ Change.AtKey .array key change) :
    (change.apply level tables).array = tables.array := by
  cases change with
  | keep => rfl
  | operate own operation =>
      cases own with
      | array => exact absurd ⟨rfl, rfl⟩ (apart operation.key)
      | rbtree => rfl
      | hash name => rfl
      | skip => rfl
  | append own id => rfl
  | zadd timestamp id => rfl

section Serving

variable {flags : Flags} (off : flags.enableTtl = false)
  {keys : Family → Finset Bytes} {sent : List Bytes → Prop}
  (fitting : Fitting keys sent) {globals : Globals Store} {maps : Maps}
  (serves : Serves keys (Unadded sent) globals.store.tables maps)
  {request : Request} (asked : sent request.args)

include off fitting serves asked

/-- A command of a family is served as on the maps. -/
theorem serves_family {family : Family} {kind : Kind}
    (named : familyCommand request.args = some (family, kind)) :
    Serves keys (Unadded sent)
        (serverStep flags globals request).1.store.tables
        (maps.serve family kind request.args).1 ∧
      (serverStep flags globals request).2 =
        (maps.serve family kind request.args).2 := by
  obtain ⟨before, store, ran⟩ :=
    serverStep_run flags globals (executes_iff.mpr named)
  have effect := family.run_handler kind (request.call flags globals) before
  have same : before.store.tables = globals.store.tables := by
    rw [store]
    rfl
  rw [operation_asks off, same, show (request.call flags
    globals).flags.enableTtl = false from off] at effect
  rw [ran]
  dsimp only
  have inside := fitting.inside request.args asked
  have proper := fitting.proper request.args asked
  have unmixed := fitting.unmixed request.args asked
  have small : ∀ index, (request.args.getD index []).length < 2 ^ 31 :=
    fun index => (arg_length_lt request.args index).trans request.small
  generalize (request.call flags globals).world.level = level at effect
  generalize (request.call flags globals).world.now 0 = now at effect
  generalize request.args = args at *
  cases asks : Kind.asks now kind args with
  | none =>
      rw [asks] at effect
      rw [effect.1, effect.2, serve_misused asks]
      exact ⟨serves, rfl⟩
  | some operation =>
      rw [asks] at effect
      rw [effect.1, effect.2]
      have plain : ∀ {name key rest}, args = name :: key :: rest →
          family = .skip → Unadded sent key := by
        rintro name key rest rfl rfl
        exact unmixed kind named
      have stored : ∀ {key}, settingKey args = some (family, key) →
          key ∈ keys family ∧ ¬ Loses family.table key := by
        intro key sets
        refine ⟨inside family key sets, ?_⟩
        rintro ⟨array, rfl⟩
        obtain rfl : family = .array := table_injective array
        exact proper sets
      cases kind with
      | set =>
          rcases args with - | ⟨name, - | ⟨key, - | ⟨value, rest⟩⟩⟩ <;>
            cases asks
          obtain ⟨member, kept⟩ :=
            @stored key (by simp only [settingKey, named])
          have length : value.length < 2 ^ 31 := small 2
          obtain ⟨next, answer⟩ := serves.store fitting.arrayRoom
            fitting.hashRoom level (Or.inl rfl) member kept length
          exact ⟨next, by rw [answer]; rfl⟩
      | mod =>
          rcases args with - | ⟨name, - | ⟨key, - | ⟨value, rest⟩⟩⟩ <;>
            cases asks
          obtain ⟨member, kept⟩ :=
            @stored key (by simp only [settingKey, named])
          have length : value.length < 2 ^ 31 := small 2
          obtain ⟨next, answer⟩ := serves.store fitting.arrayRoom
            fitting.hashRoom level (Or.inr rfl) member kept length
          exact ⟨next, by rw [answer]; rfl⟩
      | get =>
          rcases args with - | ⟨name, - | ⟨key, rest⟩⟩ <;> cases asks
          obtain ⟨next, answer⟩ := serves.get fitting.arrayRoom
            fitting.hashRoom level (plain rfl) now
          refine ⟨next, ?_⟩
          rw [answer]
          exact respPack_value (serves.short family key)
      | del =>
          rcases args with - | ⟨name, - | ⟨key, rest⟩⟩ <;> cases asks
          obtain ⟨next, answer⟩ := serves.remove fitting.arrayRoom
            fitting.hashRoom level (plain rfl)
          refine ⟨next, ?_⟩
          rw [answer, Maps.serve]
          cases (maps family key).isSome <;> rfl
      | exist =>
          rcases args with - | ⟨name, - | ⟨key, rest⟩⟩ <;> cases asks
          obtain ⟨next, answer⟩ := serves.exist fitting.arrayRoom
            fitting.hashRoom level (plain rfl) now
          refine ⟨next, ?_⟩
          rw [answer, Maps.serve]
          cases (maps family key).isSome <;> rfl

omit fitting in
/-- Other requests leave the maps alone. -/
theorem serves_other (foreign : familyCommand request.args = none) :
    Serves keys (Unadded sent)
      (serverStep flags globals request).1.store.tables maps := by
  have idle : ∀ family kind,
      ¬ Executes request.args (Family.handler family kind) := by
    intro family kind executes
    rw [executes_iff, foreign] at executes
    cases executes
  have untouched : ∀ family key, ¬ Rewrites family key request.args := by
    rintro family key ⟨executes | executes | executes, -⟩
    · exact idle family .set executes
    · exact idle family .mod executes
    · exact idle family .del executes
  have same : ∀ (family : Family) key, (family = .skip → Unadded sent key) →
      Tables.map (serverStep flags globals request).1.store.tables
          family.table key =
        Tables.map globals.store.tables family.table key :=
    fun family key plain => step_map off serves.valid (untouched family key)
      (fun skip => plain skip request.args asked)
  refine ⟨serverStep_valid off serves.valid request, ?_, ?_, serves.short,
    ?_⟩
  · refine Eq.trans (congrArg Kivo.Engine.ArrayRuns.blanks ?_) serves.blanks
    rw [serverStep_tables off, Call.after]
    refine Change.apply_array _ _ _ (fun key about => ?_)
    rw [commandChange] at about
    cases found : commandNamed (request.args.getD 0 []) with
    | none =>
        rw [found] at about
        exact about
    | some command =>
        rw [found] at about
        have executes : Executes request.args command.proc :=
          ⟨command, found, rfl⟩
        rcases Proc.change_atKey about with ⟨target, -⟩ | ⟨-, skip, -⟩
        · generalize command.proc = proc at target executes
          cases proc <;> cases target
          · exact idle .array .set executes
          · exact idle .array .del executes
          · exact idle .array .mod executes
        · cases skip
  · intro family key plain
    rw [same family key plain]
    exact serves.agrees family key plain
  · intro family proper key present
    rw [same family key (fun skip => absurd skip proper)] at present
    exact serves.within family proper key present

/-- Every request is served as on the maps. -/
theorem serves_request :
    Serves keys (Unadded sent)
        (serverStep flags globals request).1.store.tables
        (maps.step request.args).1 ∧
      (familyCommand request.args ≠ none →
        (serverStep flags globals request).2 =
          (maps.step request.args).2) := by
  rw [Maps.step]
  cases named : familyCommand request.args with
  | none =>
      exact ⟨serves_other off serves asked named,
        fun proper => absurd rfl proper⟩
  | some command =>
      obtain ⟨next, answer⟩ := serves_family off fitting serves asked named
      exact ⟨next, fun _ => answer⟩

end Serving

end Kivo.Server.KeyValue
