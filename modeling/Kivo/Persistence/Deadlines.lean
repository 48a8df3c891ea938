import Kivo.Persistence.Replay
import Kivo.Server.ActiveExpiry

/-!
# Deadlines across a restart

The log keeps the commands as they came in.  A command that counts its expiry
from the clock gets a new deadline when it is replayed: `EX`, `PX` and small
integers in `parse_ttl`, and every positive TTL in `cmd_setctx`.  The deadlines
survive a restart when the commands carry none of these, and when the text of
the expiry is not blank at the end of its frame, where `atoll` reads what lies
behind the frame.
-/

namespace Kivo.Persistence.Deadlines

open Kivo.Clib.Memory
open Kivo.Clib.Numeral
open Kivo.Engine.Data
open Kivo.Engine.KeyMap
open Kivo.Engine.HashEngine
open Kivo.Engine.SkipRuns (Level)
open Kivo.Engine.Store
open Kivo.Resp.Frame
open Kivo.Resp.Canonical
open Kivo.Resp.Reply
open Kivo.Resp.Stream
open Kivo.Server
open Kivo.Server.State
open Kivo.Server.Commands
open Kivo.Server.CommandTable
open Kivo.Server.Requests
open Kivo.Server.Changes
open Kivo.Server.ActiveExpiry (expiryFlags timedSet)
open Kivo.Persistence.Replay

/-! ## Commands with a fixed deadline -/

/-- The commands are `SET`, `RSET`, `HSET`, `SSET` and `SETCTX`. -/
def timedNames : List Bytes :=
  [ascii "SET", ascii "RSET", ascii "HSET", ascii "SSET", ascii "SETCTX"]

/-- The command is one of them. -/
def Setting (args : List Bytes) : Prop :=
  ∃ keyword ∈ timedNames, sameName (args.getD 0 []) keyword = true

/-- The number in an argument does not depend on what lies behind the
frame. -/
def Legible (args : List Bytes) (index : Nat) : Prop :=
  index + 1 < args.length ∨ ¬ Blank (args.getD index [])

/-- Where `parse_ttl` looks for its number. -/
def expiryIndex (args : List Bytes) : Nat :=
  if 5 ≤ args.length ∧
      (sameName (args.getD 3 []) (ascii "EX") = true ∨
        sameName (args.getD 3 []) (ascii "PX") = true) then 4
  else 3

/-- `parse_ttl` does not count from the clock: there is no expiry, it is not
positive, or it is an integer large enough to be a point in time. -/
def FixedExpiry (args : List Bytes) : Prop :=
  args.length < 4 ∨
    Legible args (expiryIndex args) ∧
      (strtoll (args.getD (expiryIndex args) []) ≤ 0 ∨
        expiryIndex args = 3 ∧
          1000000000 ≤ strtoll (args.getD 3 []))

/-- `cmd_setctx` does not count from the clock. -/
def FixedContext (args : List Bytes) : Prop :=
  args.length < 4 ∨
    Legible args 3 ∧ strtoll (args.getD 3 []) ≤ 0

/-- The command does not count its deadline from the clock. -/
def Fixed (args : List Bytes) : Prop :=
  if sameName (args.getD 0 []) (ascii "SETCTX") then FixedContext args
  else FixedExpiry args

/-- The deadline that `parse_ttl` then computes. -/
def fixedTime (args : List Bytes) : Int :=
  if 4 ≤ args.length ∧ expiryIndex args = 3 ∧
      1000000000 ≤ strtoll (args.getD 3 []) then
    strtoll (args.getD 3 [])
  else 0

theorem Legible.number {mem : Bytes} {req : RespRequest} {args : List Bytes}
    (arrived : Arrived mem req args) {index : Nat}
    (legible : Legible args index) (inside : index < args.length) :
    atoll (bytesFrom mem (req.argv.getD index 0)) =
      strtoll (args.getD index []) := by
  rcases legible with inner | begun
  · exact arrived.number_inner inner
  · exact arrived.number_begun inside begun

section Times

variable {call : Call} {args : List Bytes}
  (arrived : Arrived call.mem call.req args)

include arrived

theorem parseTtl_fixed (fixed : FixedExpiry args) :
    parseTtl call = fixedTime args := by
  have argc : call.argc = args.length := arrived.argc
  have keyword : ∀ name, call.argIs 3 name = sameName (args.getD 3 []) name :=
    arrived.nameIs_eq 3
  rw [parseTtl, fixedTime, argc, keyword, keyword]
  dsimp only
  by_cases short : args.length < 4
  · rw [if_pos (by omega), if_neg (fun long => by omega)]
  · obtain ⟨legible, value⟩ := fixed.resolve_left short
    rw [if_neg (by omega)]
    by_cases worded : expiryIndex args = 3
    · rw [worded] at legible value
      have number : call.number 3 = strtoll (args.getD 3 []) :=
        legible.number arrived (by omega)
      have unworded : ¬ (5 ≤ args.length ∧
          (sameName (args.getD 3 []) (ascii "EX") = true ∨
            sameName (args.getD 3 []) (ascii "PX") = true)) := by
        intro both
        rw [expiryIndex, if_pos both] at worded
        cases worded
      rw [if_neg (fun both => unworded ⟨by omega, Or.inl both.2⟩),
        if_neg (fun both => unworded ⟨by omega, Or.inr both.2⟩), number]
      rcases value with early | ⟨-, absolute⟩
      · rw [if_pos early, if_neg (fun long => by omega)]
      · rw [if_neg (by omega), if_neg (by omega),
          if_pos ⟨by omega, worded, absolute⟩]
    · have longer : 5 ≤ args.length ∧
          (sameName (args.getD 3 []) (ascii "EX") = true ∨
            sameName (args.getD 3 []) (ascii "PX") = true) := by
        by_contra other
        exact worded (if_neg other)
      have index : expiryIndex args = 4 := if_pos longer
      rw [index] at legible value
      have number : call.number 4 = strtoll (args.getD 4 []) :=
        legible.number arrived longer.1
      have early : ¬ 0 < strtoll (args.getD 4 []) :=
        Int.not_lt.mpr (value.resolve_right (fun both => by omega))
      rw [number, if_neg early, if_neg early]
      have none : ¬ (4 ≤ args.length ∧ expiryIndex args = 3 ∧
          1000000000 ≤ strtoll (args.getD 3 [])) :=
        fun all => worded all.2.1
      rw [if_neg none]
      by_cases seconds : 5 ≤ (args.length : Int) ∧
          sameName (args.getD 3 []) (ascii "EX") = true
      · rw [if_pos seconds]
      · rw [if_neg seconds, if_pos]
        exact ⟨by omega, longer.2.resolve_left
          (fun word => seconds ⟨by omega, word⟩)⟩

theorem contextExpire_fixed (fixed : FixedContext args)
    (long : 4 ≤ args.length) :
    contextExpire call = 0 := by
  have index := fixed.resolve_left (Nat.not_lt.mpr long)
  have number : call.number 3 = strtoll (args.getD 3 []) :=
    index.1.number arrived long
  rw [contextExpire, number]
  exact if_neg (Int.not_lt.mpr index.2)

end Times

/-- The change of a command with a fixed deadline. -/
def fixedChange (args : List Bytes) : Change :=
  commandChange args (fixedTime args) 0

theorem timedNames_procs : ∀ keyword ∈ timedNames, ∀ command ∈ gCmdTable,
    sameName keyword command.name = true →
      command.proc ∈ timedProcs ∧
        (command.proc = .setctx ↔
          sameName keyword (ascii "SETCTX") = true) := by
  decide

/-- The handler of a setting command. -/
theorem Setting.proc {args : List Bytes} (setting : Setting args)
    {command : Command}
    (found : commandNamed (args.getD 0 []) = some command) :
    command.proc ∈ timedProcs ∧
      (command.proc = .setctx ↔
        sameName (args.getD 0 []) (ascii "SETCTX") = true) := by
  obtain ⟨keyword, listed, same⟩ := setting
  obtain ⟨member, fits⟩ := commandNamed_some found
  rw [sameName_congr same] at fits ⊢
  exact timedNames_procs keyword listed command member fits

theorem Setting.steady {args : List Bytes} (setting : Setting args)
    (flags : Flags) :
    Steady flags args :=
  Or.inr (fun _ found => (setting.proc found).1)

/-- The expiry that `SETCTX` does not look at, and the TTL that the others do
not look at. -/
theorem change_timed {proc : Proc} (timed : proc ∈ timedProcs)
    (args : List Bytes) {expire context expire' context' : Int}
    (setctx : proc = .setctx → 4 ≤ args.length → context = context')
    (others : proc ≠ .setctx → expire = expire') :
    Proc.change args expire context proc =
      Proc.change args expire' context' proc := by
  by_cases contextual : proc = .setctx
  · subst contextual
    simp only [Proc.change, settingChange, Change.unless]
    by_cases short : args.length < 4
    · rw [if_pos (decide_eq_true short), if_pos (decide_eq_true short)]
    · rw [setctx rfl (Nat.le_of_not_lt short)]
  · rw [others contextual]
    exact change_other contextual _ _ _ _

/-- A command with a fixed deadline makes the same change at all times. -/
theorem Setting.timely {args : List Bytes} (setting : Setting args)
    (fixed : Fixed args) {flags : Flags} (ttl : flags.enableTtl = true) :
    Timely flags
      (fun args expire context =>
        commandChange args expire context = fixedChange args) args := by
  intro call same arrived
  rw [fixedChange, commandChange, commandChange]
  cases found : commandNamed (args.getD 0 []) with
  | none => rfl
  | some command =>
      obtain ⟨timed, contextual⟩ := setting.proc found
      refine change_timed timed args ?_ ?_
      · intro setctx long
        rw [Fixed, if_pos (contextual.mp setctx)] at fixed
        exact contextExpire_fixed arrived fixed long
      · intro other
        rw [Fixed, if_neg (mt contextual.mpr other)] at fixed
        rw [expireOf, same, if_pos ttl]
        exact parseTtl_fixed arrived fixed

/-! ## Restarts -/

/-- The replay rebuilt the tables to the last deadline. -/
structure Rebuilt (live replayed : Tables) : Prop where
  agrees : Agrees Eq live replayed
  valid : Valid replayed

theorem rebuilt_create : Rebuilt Tables.create Tables.create := by
  refine ⟨⟨rfl, rfl, fun _ _ => rfl, rfl, ?_⟩, valid_create⟩
  exact ⟨valid_create.skip, valid_create.skip, rfl⟩

theorem Rebuilt.apply {live replayed : Tables}
    (rebuilt : Rebuilt live replayed) (change : Change)
    (level other : Level) :
    Rebuilt (change.apply level live) (change.apply other replayed) := by
  refine ⟨rebuilt.agrees.apply level other change ?_,
    change.apply_valid rebuilt.valid other⟩
  intro operation _
  rw [rebuilt.agrees.contexts]

theorem Rebuilt.keyed {live replayed : Tables}
    (rebuilt : Rebuilt live replayed) (table : Table) :
    live.keyed table = replayed.keyed table := by
  cases table with
  | array => rw [Tables.keyed, Tables.keyed, rebuilt.agrees.array]
  | rbtree =>
      simp only [Tables.keyed, Tables.entries, rebuilt.agrees.rbtree]
  | hash name =>
      by_cases contextual : name = .hash2
      · subst contextual
        simp only [Tables.keyed, Tables.entries, rebuilt.agrees.contexts]
      · simp only [Tables.keyed, Tables.entries,
          rebuilt.agrees.hashes name contextual]
  | skip =>
      simp only [Tables.keyed, Tables.entries, rebuilt.agrees.skip.entries]

/--
The deadlines survive a restart: an entry whose deadline lies behind the
restart is there with the same deadline, and a key whose deadline lies before
it cannot be read.
-/
structure KeepsDeadlines (live replayed : Tables) (restart : Int) :
    Prop where
  kept : ∀ table, ∀ entry ∈ live.keyed table,
    restart < entry.expireTime → entry ∈ replayed.keyed table
  lapsed : ∀ table, ∀ entry ∈ live.keyed table,
    0 < entry.expireTime → entry.expireTime < restart →
      replayed.get true restart entry.key table = none

theorem Rebuilt.keepsDeadlines {live replayed : Tables}
    (rebuilt : Rebuilt live replayed) (restart : Int) :
    KeepsDeadlines live replayed restart := by
  refine ⟨?_, ?_⟩
  · intro table entry member _
    rw [← rebuilt.keyed table]
    exact member
  · intro table entry member timed late
    rw [rebuilt.keyed table] at member
    exact rebuilt.valid.get_expired member timed late

/--
With TTL the log keeps the deadlines of commands that do not count them from
the clock.  For all such `SET`, `RSET`, `HSET`, `SSET` and `SETCTX` frames that
connections deliver to an empty server, at whatever times, the calls end, and
every recovery of the logged bytes into empty tables, whatever its clock shows,
ends in tables that keep the deadlines for every time of the restart.
-/
theorem recover_keeps_deadlines {flags : Flags}
    (ttl : flags.enableTtl = true)
    (persistent : flags.enablePersistence = true)
    {deliveries : List Delivery}
    (canonical : ∀ delivery ∈ deliveries, delivery.Canonical) {fuel : Nat}
    (enough : ∀ delivery ∈ deliveries, delivery.commands.length < fuel)
    (setting : ∀ args ∈ deliveries.flatMap Delivery.commands, Setting args)
    (fixed : ∀ args ∈ deliveries.flatMap Delivery.commands, Fixed args)
    (worlds : Nat → World) :
    ∃ live,
      serveAll flags fuel (freshGlobals worlds) deliveries = some live ∧
      ∀ (mem : Bytes) (inBuf : Int) (session : Session Store),
        Holds mem inBuf live.persisted.flatten →
        live.persisted.flatten.length < 2 ^ 31 →
        session.globals.store.tables = Tables.create →
        ∃ fuel' rebuilt,
          protocolProcessRecover (commandLayer flags) fuel' mem inBuf
              live.persisted.flatten.length session =
            some ((live.persisted.flatten.length : Int), rebuilt) ∧
          ∀ restart, KeepsDeadlines live.store.tables
            rebuilt.globals.store.tables restart := by
  have logging : flags.logsWrites = true := by
    rw [Flags.logsWrites, persistent]
    rfl
  obtain ⟨live, run, recovers⟩ := @replay_related _ flags logging Rebuilt
    (fun timely timely' rebuilt level other => by
      rw [timely, timely']
      exact rebuilt.apply _ level other)
    rebuilt_create deliveries fuel canonical enough
    (fun args member => (setting args member).steady flags)
    (fun args member =>
      (setting args member).timely (fixed args member) ttl) worlds
  refine ⟨live, run, ?_⟩
  intro mem inBuf session stored small fresh
  obtain ⟨fuel', rebuilt, recovered, same⟩ :=
    recovers mem inBuf session stored small fresh
  exact ⟨fuel', rebuilt, recovered, same.keepsDeadlines⟩

/-- A clock that shows one time, in milliseconds. -/
def clockAt (ms : Int) : Nat → World :=
  fun _ => { (default : World) with now := fun _ => ms, time := ms / 1000 }

/-- One command, delivered alone. -/
def deliveryOf (args : List Bytes) : Delivery :=
  { fd := 7
    mem := respEncode args
    inBuf := 0
    wbuf := none
    commands := [args] }

/-- The deadline of `SET k v 2000000000` survives a restart. -/
theorem recover_keeps_deadlines_absolute :
    Setting timedSet ∧ Fixed timedSet ∧
      ∃ live,
        serveAll expiryFlags 2 (freshGlobals (clockAt 1000))
            [deliveryOf timedSet] = some live ∧
          live.store.tables.keyed .array =
            [{ key := ascii "k"
               value := ascii "v"
               expireTime := 2000000000 }] ∧
          ∃ fuel' rebuilt,
            protocolProcessRecover (commandLayer expiryFlags) fuel'
                (respEncode timedSet) 0 live.persisted.flatten.length
                (Alignment.freshSession (clockAt 5000)) =
              some ((live.persisted.flatten.length : Int), rebuilt) ∧
            ∀ restart, KeepsDeadlines live.store.tables
              rebuilt.globals.store.tables restart := by
  have setting : Setting timedSet := by
    rw [Setting]
    decide
  have fixed : Fixed timedSet := by
    rw [Fixed, if_neg (by decide)]
    refine Or.inr ⟨Or.inr ?_, Or.inr ⟨by decide, by decide⟩⟩
    decide
  have canonical : ∀ delivery ∈ [deliveryOf timedSet],
      delivery.Canonical := by
    intro delivery member
    rw [List.mem_singleton.mp member]
    exact ⟨⟨Int.le_refl 0, List.prefix_rfl⟩, by decide +kernel⟩
  obtain ⟨live, run, recovers⟩ := recover_keeps_deadlines
    (show expiryFlags.enableTtl = true from rfl) rfl canonical
    (show ∀ delivery ∈ [deliveryOf timedSet],
      delivery.commands.length < 2 by decide)
    (fun args member => by
      rw [List.mem_singleton.mp member]
      exact setting)
    (fun args member => by
      rw [List.mem_singleton.mp member]
      exact fixed) (clockAt 1000)
  have served : (serveAll expiryFlags 2 (freshGlobals (clockAt 1000))
      [deliveryOf timedSet]).map (fun globals =>
        (globals.persisted, globals.store.tables.keyed .array)) =
      some ([respEncode timedSet],
        [{ key := ascii "k"
           value := ascii "v"
           expireTime := 2000000000 }]) := by
    decide +kernel
  rw [run] at served
  have both := Prod.ext_iff.mp (Option.some.inj served)
  have persisted : live.persisted = [respEncode timedSet] := both.1
  refine ⟨setting, fixed, live, run, both.2, recovers _ 0 _ ?_ ?_ rfl⟩
  · rw [persisted]
    exact ⟨Int.le_refl 0, List.prefix_rfl⟩
  · rw [persisted]
    decide +kernel

/-- `SET k v EX 10` counts from the clock. -/
def setExCommand : List Bytes :=
  [ascii "SET", ascii "k", ascii "v", ascii "EX", ascii "10"]

/--
`SET k v EX 10` at 1000 ms has the deadline 11000.  Replayed at 5000 ms it gets
the deadline 15000, and replayed at 20000 ms the key is there again.
-/
theorem recover_moves_deadline :
    Setting setExCommand ∧ (deliveryOf setExCommand).Canonical ∧
      ∃ live,
        serveAll expiryFlags 2 (freshGlobals (clockAt 1000))
            [deliveryOf setExCommand] = some live ∧
          live.persisted = [respEncode setExCommand] ∧
          ∀ restart, restart = 5000 ∨ restart = 20000 →
            ∃ rebuilt,
              protocolProcessRecover (commandLayer expiryFlags) 2
                  (respEncode setExCommand) 0
                  (respEncode setExCommand).length
                  (Alignment.freshSession (clockAt restart)) =
                some (((respEncode setExCommand).length : Int), rebuilt) ∧
              ¬ KeepsDeadlines live.store.tables
                rebuilt.globals.store.tables restart := by
  have served : (serveAll expiryFlags 2 (freshGlobals (clockAt 1000))
      [deliveryOf setExCommand]).map (fun globals =>
        (globals.persisted, globals.store.tables.keyed .array)) =
      some ([respEncode setExCommand],
        [{ key := ascii "k", value := ascii "v", expireTime := 11000 }]) := by
    decide +kernel
  obtain ⟨live, run, seen⟩ := Option.map_eq_some_iff.mp served
  have both := Prod.ext_iff.mp seen
  have member : { key := ascii "k"
                  value := ascii "v"
                  expireTime := 11000 } ∈ live.store.tables.keyed .array := by
    rw [show live.store.tables.keyed .array = _ from both.2]
    exact List.mem_singleton_self _
  refine ⟨by rw [Setting]; decide,
    ⟨⟨Int.le_refl 0, List.prefix_rfl⟩, by decide +kernel⟩,
    live, run, both.1, ?_⟩
  rintro restart (rfl | rfl)
  · have recovered : (protocolProcessRecover (commandLayer expiryFlags) 2
        (respEncode setExCommand) 0 (respEncode setExCommand).length
        (Alignment.freshSession (clockAt 5000))).map (fun result =>
          (result.1, result.2.globals.store.tables.keyed .array)) =
        some (((respEncode setExCommand).length : Int),
          [{ key := ascii "k"
             value := ascii "v"
             expireTime := 15000 }]) := by
      decide +kernel
    obtain ⟨⟨processed, rebuilt⟩, ended, final⟩ :=
      Option.map_eq_some_iff.mp recovered
    obtain ⟨rfl, entries⟩ := Prod.ext_iff.mp final
    refine ⟨rebuilt, ended, ?_⟩
    intro keeps
    have kept := keeps.kept .array _ member (by decide)
    rw [show rebuilt.globals.store.tables.keyed .array = _ from entries]
      at kept
    exact absurd kept (by decide)
  · have recovered : (protocolProcessRecover (commandLayer expiryFlags) 2
        (respEncode setExCommand) 0 (respEncode setExCommand).length
        (Alignment.freshSession (clockAt 20000))).map (fun result =>
          (result.1,
            result.2.globals.store.tables.get true 20000 (ascii "k")
              .array)) =
        some (((respEncode setExCommand).length : Int),
          some (ascii "v")) := by
      decide +kernel
    obtain ⟨⟨processed, rebuilt⟩, ended, final⟩ :=
      Option.map_eq_some_iff.mp recovered
    obtain ⟨rfl, read⟩ := Prod.ext_iff.mp final
    refine ⟨rebuilt, ended, ?_⟩
    intro keeps
    have lapsed := keeps.lapsed .array _ member (by decide) (by decide)
    rw [show rebuilt.globals.store.tables.get true 20000 (ascii "k") .array =
      _ from read] at lapsed
    cases lapsed

end Kivo.Persistence.Deadlines
