import Kivo.Server.Serving

/-!
# Expired keys and absent keys

A key whose time has passed stays in its table until a reading command comes
upon it.  Two runs of the commands of a family are compared, one from a state
with an expired entry and one from the state without it.  They cannot be told
apart exactly as long as the table refuses no key for want of room and the first
command that names the key does not delete it.
-/

namespace Kivo.Server.LazyExpiry

open Kivo.Clib.Memory
open Kivo.Clib.Simulation
open Kivo.Engine.Data
open Kivo.Engine.KeyMap
open Kivo.Engine.SkipRuns (Level)
open Kivo.Engine.Store
open Kivo.Engine.Maps
open Kivo.Resp.Frame
open Kivo.Resp.Reply
open Kivo.Server.State
open Kivo.Server.Commands
open Kivo.Server.CommandTable
open Kivo.Server.Alignment
open Kivo.Server.Serving

/-! ## Commands of a family -/

/-- One of the five commands, with what its handler reads. -/
structure Command where
  kind : Kind
  call : Call

/-- Run the handler of a command. -/
def serve (family : Family) (globals : Globals Store) (command : Command) :
    Globals Store × RespReply :=
  (family.handler command.kind).run command.call globals

/-- The globals without the entry of a key. -/
def removed (family : Family) (key : Bytes) (globals : Globals Store) :
    Globals Store :=
  { globals with
    store :=
      { globals.store with
        tables := (globals.store.tables.operate true 0 family.table
          (.del key)).1 } }

/-- The entries of a map whose time has not passed. -/
def live (now : Int) (map : Contents) : Contents :=
  fun key =>
    (map key).filter (fun stored => ¬ Expired true now stored.expireTime)

/-- The command is about a key. -/
def Names (key : Bytes) (command : Command) : Prop :=
  ∃ operation, command.kind.operation command.call = some operation ∧
    operation.key = key

/-- The table has room for what the command sets, and the command does not
delete the key. -/
def Unexposed (family : Family) (key : Bytes) (globals : Globals Store)
    (command : Command) : Prop :=
  ∀ operation, command.kind.operation command.call = some operation →
    ¬ (Operation.Sets operation ∧
      Refuses globals.store.tables operation.key family.table) ∧
    operation ≠ .del key

/-! ## Two states -/

/-- Two tables that no command tells apart. -/
structure Alike (table : Table) (tables tables' : Tables) : Prop where
  valid : Valid tables
  valid' : Valid tables'
  same : Tables.view tables table = Tables.view tables' table

/-- Two tables of which the first one has an entry with some expiry time that
the second one lacks. -/
structure Hidden (table : Table) (key : Bytes) (expireTime : Int)
    (tables tables' : Tables) : Prop where
  valid : Valid tables
  valid' : Valid tables'
  entry : ∃ value,
    Tables.map tables table key =
      some { value := value, expireTime := expireTime }
  rest : Tables.view tables' table =
    { map := (Tables.map tables table).erase key
      blanks := (Tables.view tables table).blanks }

/-- The second state is the first one without the entry. -/
theorem hidden_removed {family : Family} {globals : Globals Store}
    {key value : Bytes} {expireTime : Int}
    (valid : Valid globals.store.tables)
    (stored : Tables.map globals.store.tables family.table key =
      some { value := value, expireTime := expireTime }) :
    Hidden family.table key expireTime globals.store.tables
      (removed family key globals).store.tables := by
  refine ⟨valid, valid.operate true 0 family.table (.del key), ⟨value, stored⟩,
    ?_⟩
  have step := operate_view valid true 0 family.table (.del key)
  rw [View.step, if_neg (fun both => both.1), if_neg (fun both => both.1)]
    at step
  exact congrArg Prod.fst step

section Steps

variable {table : Table} {tables tables' : Tables} {operation : Operation}

/-- Tables that look alike answer alike. -/
theorem Alike.step (alike : Alike table tables tables') (enableTtl : Bool)
    (level : Level) (operation : Operation) :
    Alike table (tables.operate enableTtl level table operation).1
        (tables'.operate enableTtl level table operation).1 ∧
      (tables.operate enableTtl level table operation).2 =
        (tables'.operate enableTtl level table operation).2 := by
  have step := operate_view alike.valid enableTtl level table operation
  have step' := operate_view alike.valid' enableTtl level table operation
  rw [← alike.same, ← step] at step'
  obtain ⟨view, answer⟩ := Prod.ext_iff.mp step'
  exact ⟨⟨alike.valid.operate enableTtl level table operation,
    alike.valid'.operate enableTtl level table operation, view.symm⟩,
    answer.symm⟩

variable {key : Bytes} {expireTime : Int}
  (hidden : Hidden table key expireTime tables tables')

include hidden

theorem Hidden.map' :
    Tables.map tables' table = (Tables.map tables table).erase key :=
  congrArg View.map hidden.rest

/-- The second table has room. -/
theorem Hidden.room (other : Bytes) :
    ¬ (Tables.view tables' table).NoRoom other table := by
  obtain ⟨value, stored⟩ := hidden.entry
  refine noRoom_erase hidden.valid table ?_ hidden.map' ?_ other
  · rw [stored]
    exact Option.some_ne_none _
  · rw [hidden.rest]

/-- An entry is not out of sight. -/
theorem Hidden.kept : ¬ Loses table key := by
  rintro ⟨rfl, rfl⟩
  obtain ⟨value, stored⟩ := hidden.entry
  rw [map_array_nil hidden.valid] at stored
  cases stored

/-- A step of the first table that finds room. -/
theorem Hidden.view_step (enableTtl : Bool) (level : Level)
    (room : ¬ (Operation.Sets operation ∧
      Refuses tables operation.key table))
    (kept : ¬ (Operation.Sets operation ∧ Loses table operation.key)) :
    Tables.view (tables.operate enableTtl level table operation).1 table =
        { map := ((Tables.map tables table).step enableTtl operation).1
          blanks := (Tables.view tables table).blanks } ∧
      (tables.operate enableTtl level table operation).2 =
        ((Tables.map tables table).step enableTtl operation).2 := by
  have step := operate_view hidden.valid enableTtl level table operation
  rw [View.step, if_neg, if_neg kept] at step
  · exact Prod.ext_iff.mp step
  · rw [← refuses_iff hidden.valid]
    exact room

/-- A step of the second table. -/
theorem Hidden.view_step' (enableTtl : Bool) (level : Level)
    (kept : ¬ (Operation.Sets operation ∧ Loses table operation.key)) :
    Tables.view (tables'.operate enableTtl level table operation).1 table =
        { map := (((Tables.map tables table).erase key).step enableTtl
            operation).1
          blanks := (Tables.view tables table).blanks } ∧
      (tables'.operate enableTtl level table operation).2 =
        (((Tables.map tables table).erase key).step enableTtl
          operation).2 := by
  have step := operate_view hidden.valid' enableTtl level table operation
  rw [View.step, if_neg (fun both => hidden.room _ both.2), if_neg kept,
    hidden.rest] at step
  exact Prod.ext_iff.mp step

/-- A call on the key settles the difference, unless it deletes. -/
theorem Hidden.own (positive : 0 < expireTime) (level : Level)
    (names : operation.key = key)
    (reads : ∀ now, operation = .get now key ∨ operation = .exist now key →
      expireTime < now)
    (room : ¬ (Operation.Sets operation ∧
      Refuses tables operation.key table))
    (stays : operation ≠ .del key)
    (command : ∀ expected, operation ≠ .delIfExpired key expected) :
    Alike table (tables.operate true level table operation).1
        (tables'.operate true level table operation).1 ∧
      (tables.operate true level table operation).2 =
        (tables'.operate true level table operation).2 := by
  have kept : ¬ (Operation.Sets operation ∧ Loses table operation.key) := by
    rw [names]
    exact fun both => hidden.kept both.2
  obtain ⟨view, answer⟩ := hidden.view_step true level room kept
  obtain ⟨view', answer'⟩ := hidden.view_step' true level kept
  obtain ⟨value, stored⟩ := hidden.entry
  have same : (Tables.map tables table).step true operation =
      ((Tables.map tables table).erase key).step true operation := by
    have purged : ∀ now, expireTime < now →
        (Tables.map tables table).purge true now key =
          ((Tables.map tables table).erase key).purge true now key := by
      intro now late
      rw [purge_expired stored ⟨rfl, positive, late⟩,
        purge_absent true now (erase_self _ key)]
    subst names
    cases operation with
    | set own value expireTime =>
        exact Prod.ext (set_erase _ own _).symm rfl
    | mod own value expireTime =>
        exact Prod.ext (set_erase _ own _).symm rfl
    | get now own =>
        have purge := purged now (reads now (Or.inl rfl))
        exact Prod.ext purge (congrArg
          (fun map : Contents => Answer.value ((map own).map Item.value))
          purge)
    | exist now own =>
        have purge := purged now (reads now (Or.inr rfl))
        exact Prod.ext purge (congrArg
          (fun map : Contents =>
            Answer.status (if (map own).isSome then 0 else 1))
          purge)
    | del own => exact absurd rfl stays
    | delIfExpired own expected => exact absurd rfl (command expected)
  refine ⟨⟨hidden.valid.operate true level table operation,
    hidden.valid'.operate true level table operation, ?_⟩, ?_⟩
  · rw [view, view', same]
  · rw [answer, answer', same]

/-- A call on another key leaves the difference. -/
theorem Hidden.other (enableTtl : Bool) (level : Level)
    (apart : operation.key ≠ key)
    (room : ¬ (Operation.Sets operation ∧
      Refuses tables operation.key table)) :
    Hidden table key expireTime
        (tables.operate enableTtl level table operation).1
        (tables'.operate enableTtl level table operation).1 ∧
      (tables.operate enableTtl level table operation).2 =
        (tables'.operate enableTtl level table operation).2 := by
  obtain ⟨value, stored⟩ := hidden.entry
  have entry := (operate_frame hidden.valid enableTtl level table table
    operation (fun _ => apart.symm)).trans stored
  by_cases lost : Operation.Sets operation ∧ Loses table operation.key
  · have step := operate_view hidden.valid enableTtl level table operation
    have step' := operate_view hidden.valid' enableTtl level table operation
    rw [View.step, if_neg, if_pos lost] at step
    · rw [View.step, if_neg (fun both => hidden.room _ both.2), if_pos lost,
        hidden.rest] at step'
      obtain ⟨view, answer⟩ := Prod.ext_iff.mp step
      obtain ⟨view', answer'⟩ := Prod.ext_iff.mp step'
      refine ⟨⟨hidden.valid.operate enableTtl level table operation,
        hidden.valid'.operate enableTtl level table operation,
        ⟨value, entry⟩, ?_⟩, answer.trans answer'.symm⟩
      rw [show Tables.map (tables.operate enableTtl level table operation).1
        table = Tables.map tables table from congrArg View.map view]
      dsimp only at view view'
      rw [view', view]
    · rw [← refuses_iff hidden.valid]
      exact room
  · obtain ⟨view, answer⟩ := hidden.view_step enableTtl level room lost
    obtain ⟨view', answer'⟩ := hidden.view_step' enableTtl level lost
    rw [step_erase enableTtl _ apart] at view' answer'
    refine ⟨⟨hidden.valid.operate enableTtl level table operation,
      hidden.valid'.operate enableTtl level table operation,
      ⟨value, entry⟩, ?_⟩, answer.trans answer'.symm⟩
    rw [show Tables.map (tables.operate enableTtl level table operation).1
      table = _ from congrArg View.map view, view', view]

/-- Only the first table refuses a key for want of room. -/
theorem Hidden.refused (enableTtl : Bool) (level : Level)
    (sets : Operation.Sets operation)
    (full : Refuses tables operation.key table) :
    (tables.operate enableTtl level table operation).2 = .status (-1) ∧
      (tables'.operate enableTtl level table operation).2 = .status 0 := by
  constructor
  · rw [operate_refused hidden.valid enableTtl level sets full]
  · have step := operate_view hidden.valid' enableTtl level table operation
    have stored : ∀ map : Contents,
        (map.step enableTtl operation).2 = .status 0 := by
      intro map
      cases operation <;> first | rfl | exact absurd sets id
    rw [View.step, if_neg (fun both => hidden.room _ both.2)] at step
    refine (congrArg Prod.snd step).trans ?_
    split_ifs
    · rfl
    · exact stored _

/-- Only the first table finds the key to delete. -/
theorem Hidden.deleted (enableTtl : Bool) (level : Level) :
    (tables.operate enableTtl level table (.del key)).2 = .status 0 ∧
      (tables'.operate enableTtl level table (.del key)).2 = .status 1 := by
  obtain ⟨value, stored⟩ := hidden.entry
  obtain ⟨-, answer⟩ := hidden.view_step enableTtl level
    (fun both : Operation.Sets (.del key) ∧ _ => both.1) (fun both => both.1)
  obtain ⟨-, answer'⟩ := hidden.view_step' enableTtl level
    (fun both : Operation.Sets (.del key) ∧ _ => both.1)
  rw [answer, answer']
  simp only [Contents.step, stored, erase_self]
  exact ⟨rfl, rfl⟩

end Steps

/-! ## Runs -/

/-- The clock readings of a command, and whether TTL is on. -/
def Late (expireTime : Int) (command : Command) : Prop :=
  command.call.flags.enableTtl = true ∧
    expireTime < command.call.world.now 0

/-- Reading calls of a command carry its clock reading. -/
theorem operation_reads {command : Command} {operation : Operation}
    (makes : command.kind.operation command.call = some operation)
    {now : Int} {key : Bytes}
    (reads : operation = .get now key ∨ operation = .exist now key) :
    now = command.call.world.now 0 := by
  obtain ⟨kind, call⟩ := command
  cases kind <;>
    · simp only [Kind.operation] at makes
      split_ifs at makes
      cases makes
      rcases reads with same | same <;> cases same <;> rfl

theorem operation_ne_expire {command : Command} {operation : Operation}
    (makes : command.kind.operation command.call = some operation)
    (key : Bytes) (expected : Int) :
    operation ≠ .delIfExpired key expected := by
  obtain ⟨kind, call⟩ := command
  rintro rfl
  cases kind <;>
    · simp only [Kind.operation] at makes
      split_ifs at makes
      cases makes

theorem operation_get {command : Command} {operation : Operation}
    (makes : command.kind.operation command.call = some operation)
    (get : command.kind = .get) : ∃ now key, operation = .get now key := by
  rw [get, Kind.operation] at makes
  split_ifs at makes
  exact ⟨_, _, (Option.some.inj makes).symm⟩

/-- A reply tells success from failure. -/
theorem reply_failed {kind : Kind} (status : kind ≠ .get) {code : Int}
    (failed : code ≠ 0) :
    kind.reply (.status code) ≠ kind.reply (.status 0) := by
  cases kind with
  | get => exact absurd rfl status
  | _ => simp [Kind.reply, statusReply, codeOf, failed, RespReply.plain]

section Runs

variable {family : Family} {key : Bytes} {expireTime : Int}
  {globals globals' : Globals Store} {command : Command}

theorem serve_alike
    (alike : Alike family.table globals.store.tables globals'.store.tables) :
    Alike family.table (serve family globals command).1.store.tables
        (serve family globals' command).1.store.tables ∧
      (serve family globals command).2 =
        (serve family globals' command).2 := by
  have effect := family.run_handler command.kind command.call globals
  have effect' := family.run_handler command.kind command.call globals'
  cases makes : command.kind.operation command.call with
  | none =>
      rw [makes] at effect effect'
      rw [serve, serve, effect.1, effect'.1, effect.2, effect'.2]
      exact ⟨alike, rfl⟩
  | some operation =>
      rw [makes] at effect effect'
      obtain ⟨next, answer⟩ := alike.step command.call.flags.enableTtl
        command.call.world.level operation
      rw [serve, serve, effect.1, effect'.1, effect.2, effect'.2, answer]
      exact ⟨next, rfl⟩

variable (positive : 0 < expireTime)
  (late : Late expireTime command)
  (hidden : Hidden family.table key expireTime globals.store.tables
    globals'.store.tables)

include hidden

include positive late in
theorem serve_hidden (unexposed : Unexposed family key globals command) :
    (Names key command →
        Alike family.table (serve family globals command).1.store.tables
          (serve family globals' command).1.store.tables) ∧
      (¬ Names key command →
        Hidden family.table key expireTime
          (serve family globals command).1.store.tables
          (serve family globals' command).1.store.tables) ∧
      (serve family globals command).2 =
        (serve family globals' command).2 := by
  have effect := family.run_handler command.kind command.call globals
  have effect' := family.run_handler command.kind command.call globals'
  cases makes : command.kind.operation command.call with
  | none =>
      rw [makes] at effect effect'
      rw [serve, serve, effect.1, effect'.1, effect.2, effect'.2]
      refine ⟨?_, fun _ => hidden, rfl⟩
      rintro ⟨operation, here, -⟩
      rw [makes] at here
      cases here
  | some operation =>
      rw [makes] at effect effect'
      obtain ⟨room, stays⟩ := unexposed operation makes
      rw [serve, serve, effect.1, effect'.1, effect.2, effect'.2]
      by_cases names : operation.key = key
      · rw [late.1]
        obtain ⟨next, answer⟩ := hidden.own positive
          command.call.world.level names
          (fun now reads => by
            rw [operation_reads makes reads]
            exact late.2)
          room stays (operation_ne_expire makes key)
        refine ⟨fun _ => next, ?_, by rw [answer]⟩
        intro foreign
        exact absurd ⟨operation, makes, names⟩ foreign
      · obtain ⟨next, answer⟩ := hidden.other
          command.call.flags.enableTtl command.call.world.level names room
        refine ⟨?_, fun _ => next, by rw [answer]⟩
        rintro ⟨other, here, own⟩
        rw [makes] at here
        cases here
        exact absurd own names

/-- A command that is not allowed is answered differently. -/
theorem serve_exposed (exposed : ¬ Unexposed family key globals command) :
    (serve family globals command).2 ≠ (serve family globals' command).2 := by
  have effect := family.run_handler command.kind command.call globals
  have effect' := family.run_handler command.kind command.call globals'
  rw [Unexposed, Classical.not_forall] at exposed
  obtain ⟨operation, exposed⟩ := exposed
  obtain ⟨makes, wrong⟩ := Classical.not_imp.mp exposed
  rw [makes] at effect effect'
  rw [serve, serve, effect.2, effect'.2]
  rcases not_and_or.mp wrong with full | deletes
  · obtain ⟨sets, full⟩ := not_not.mp full
    obtain ⟨refused, stored⟩ := hidden.refused
      command.call.flags.enableTtl command.call.world.level sets full
    rw [refused, stored]
    refine reply_failed ?_ (by decide)
    intro get
    obtain ⟨now, own, rfl⟩ := operation_get makes get
    exact sets
  · obtain rfl := not_not.mp deletes
    obtain ⟨found, missing⟩ := hidden.deleted
      command.call.flags.enableTtl command.call.world.level
    rw [found, missing]
    refine (reply_failed ?_ (by decide)).symm
    intro get
    obtain ⟨now, own, other⟩ := operation_get makes get
    cases other

end Runs

/-- An expired entry is none of the entries whose time has not passed. -/
theorem Hidden.live_eq {table : Table} {key : Bytes} {expireTime : Int}
    {tables tables' : Tables}
    (hidden : Hidden table key expireTime tables tables')
    (positive : 0 < expireTime) {now : Int} (late : expireTime < now) :
    live now (Tables.map tables table) =
      live now (Tables.map tables' table) := by
  obtain ⟨value, stored⟩ := hidden.entry
  rw [hidden.map']
  funext other
  by_cases same : other = key
  · have gone : Expired true now expireTime := ⟨rfl, positive, late⟩
    rw [live, live, same, stored, erase_self, Option.filter_some,
      decide_eq_false (not_not.mpr gone)]
    rfl
  · rw [live, live, Contents.erase, if_neg same]

/--
An expired entry cannot be told from a missing one exactly in the runs in which,
up to the first command that names its key, the table has room for every key
that is set, and in which that command does not delete the key.
-/
theorem expired_as_absent_iff {family : Family} {globals : Globals Store}
    {key value : Bytes} {expireTime : Int}
    (valid : Valid globals.store.tables)
    (stored : Tables.map globals.store.tables family.table key =
      some { value := value, expireTime := expireTime })
    (positive : 0 < expireTime) {commands : List Command}
    (late : ∀ command ∈ commands, Late expireTime command) :
    ((run (serve family) globals commands).2 =
          (run (serve family) (removed family key globals) commands).2 ∧
        ∀ now, expireTime < now →
          live now (Tables.map (run (serve family) globals
            commands).1.store.tables family.table) =
            live now (Tables.map (run (serve family)
              (removed family key globals) commands).1.store.tables
              family.table)) ↔
      AlongUntil (serve family) (Names key) (Unexposed family key) globals
        commands := by
  have start := hidden_removed valid stored
  have keeps := fun (state state' : Globals Store) (command : Command)
      (_ : Late expireTime command)
      (alike : Alike family.table state.store.tables state'.store.tables) =>
    @serve_alike family state state' command alike
  have moves := fun (state state' : Globals Store) (command : Command)
      (after : Late expireTime command)
      (hidden : Hidden family.table key expireTime state.store.tables
        state'.store.tables)
      (unexposed : Unexposed family key state command) =>
    serve_hidden positive after hidden unexposed
  have parts := fun (state state' : Globals Store) (command : Command)
      (_ : Late expireTime command)
      (hidden : Hidden family.table key expireTime state.store.tables
        state'.store.tables)
      (exposed : ¬ Unexposed family key state command) =>
    serve_exposed hidden exposed
  constructor
  · rintro ⟨replies, -⟩
    exact (run_unnoticed_iff keeps moves parts late start).mp replies
  · intro along
    obtain ⟨final, replies⟩ := run_unnoticed keeps moves late start along
    refine ⟨replies, ?_⟩
    intro now after
    rcases final with hidden | alike
    · exact hidden.live_eq positive after
    · exact congrArg (live now) (congrArg View.map alike.same)

/-- A command at a time, with TTL. -/
def commandAt (now : Int) (kind : Kind) (args : List Bytes) : Command :=
  { kind := kind
    call :=
      { flags := { plainFlags with enableTtl := true }
        mem := respEncode args
        req := respUnpackNoModify (respEncode args) 0 (respEncode args).length
        world := { (default : World) with now := fun _ => now } } }

/-- A server whose key `k` of the array expires at time 5. -/
def expiringServer : Globals Store :=
  { (freshSession (fun _ => default)).globals with
    store :=
      { Store.create (fun _ => default) with
        tables := (Tables.create.operate true 0 .array
          (.set (ascii "k") (ascii "v") 5)).1 } }

/-- `GET k` at time 10. -/
theorem expired_as_absent_get :
    (run (serve .array) expiringServer
        [commandAt 10 .get [ascii "GET", ascii "k"]]).2 =
      (run (serve .array) (removed .array (ascii "k") expiringServer)
        [commandAt 10 .get [ascii "GET", ascii "k"]]).2 := by
  refine ((@expired_as_absent_iff .array expiringServer (ascii "k")
    (ascii "v") 5 (valid_create.operate true 0 .array _) (by decide +kernel)
    (by decide) [commandAt 10 .get [ascii "GET", ascii "k"]] ?_).mpr ?_).1
  · intro command member
    rw [List.mem_singleton.mp member]
    exact ⟨rfl, show (5 : Int) < 10 by decide⟩
  · refine ⟨?_, fun _ => trivial⟩
    intro operation makes
    obtain ⟨now, key, rfl⟩ := operation_get makes rfl
    exact ⟨fun both => both.1, nofun⟩

/-- `DEL k` at time 10 finds the expired key. -/
theorem expired_not_absent :
    Tables.map expiringServer.store.tables .array (ascii "k") =
        some { value := ascii "v", expireTime := 5 } ∧
      (run (serve .array) expiringServer
        [commandAt 10 .del [ascii "DEL", ascii "k"]]).2 =
        [RespReply.plain .ok] ∧
      (run (serve .array) (removed .array (ascii "k") expiringServer)
        [commandAt 10 .del [ascii "DEL", ascii "k"]]).2 =
        [RespReply.plain .noExists] := by
  decide +kernel

end Kivo.Server.LazyExpiry
