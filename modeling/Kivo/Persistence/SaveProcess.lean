import Kivo.Clib.Simulation
import Kivo.Persistence.SnapshotRoundTrip
import Kivo.Server.Alignment

/-!
# The child that saves

`cmd_sys_save` forks a child, which writes the tables as they were at that
moment to `kvstore.snap.tmp` and renames the file to `kvstore.snap`, while the
server goes on to serve commands.  The steps of the child and of the server
interleave, and the child can fail at every step or be killed between two of
them.  All children use the same temporary file; `g_save_pid` admits one at a
time.

This module follows a server through any run of this kind and shows that the
file `kvstore.snap` is never anything but a complete snapshot: of the tables
at the moment of a `SAVE` that was answered with `+OK`, in the order of these
commands.
-/

namespace Kivo.Persistence.SaveProcess

open Kivo.Clib.Memory
open Kivo.Clib.Simulation
open Kivo.Engine.Data
open Kivo.Engine.KeyMap
open Kivo.Engine.SkipRuns (Level)
open Kivo.Engine.Store
open Kivo.Resp.Frame
open Kivo.Resp.Reply
open Kivo.Resp.Stream
open Kivo.Server.State
open Kivo.Server.Commands
open Kivo.Server.CommandTable
open Kivo.Server.Handlers
open Kivo.Server.Alignment (freshSession plainFlags)
open Kivo.Persistence.Snapshot
open Kivo.Persistence.SnapshotRoundTrip

/-! ## The child -/

/-- Where the child stands in `kvs_snapshot_save`: in front of the `open`, of
the walk over the tables and the `write`, of the `rename`, of an `unlink`, or
behind its `_exit`. -/
inductive Child where
  | opening (copy : Tables)
  | writing (copy : Tables)
  | publishing
  | unlinking
  | ended

/-- What the child meets: whether its calls succeed, the clock, and how many
bytes `write` takes. -/
structure ChildLuck where
  opened : Bool
  allocated : Bool
  renamed : Bool
  now : Int
  count : Nat
deriving DecidableEq, Repr

/-- The child, `kvstore.snap.tmp` and `kvstore.snap`. -/
structure Saving where
  child : Child
  tmp : Option Bytes
  snap : Option Bytes

/-- The bytes that `kvs_snapshot_save` collects. -/
def snapshotOf (enableTtl : Bool) (now : Int) (copy : Tables) : Bytes :=
  sealed (recordsBytes (snapshotRecords enableTtl now copy))

theorem kvsSnapshotSave_eq (luck : SaveLuck) (enableTtl : Bool) (now : Int)
    (tables : Tables) (file : Option Bytes) :
    kvsSnapshotSave luck enableTtl now tables file =
      if luck.opened && luck.allocated && luck.written && luck.renamed then
        (some (snapshotOf enableTtl now tables), 0)
      else (file, -1) :=
  rfl

/-- One step of `kvs_snapshot_save` and of the `_exit` behind it. -/
def Saving.step (enableTtl : Bool) (luck : ChildLuck) (saving : Saving) :
    Saving :=
  match saving.child with
  | .opening copy =>
      if luck.opened then
        { saving with child := .writing copy, tmp := some [] }
      else { saving with child := .ended }
  | .writing copy =>
      if luck.allocated then
        let content := snapshotOf enableTtl luck.now copy
        { saving with
          child := if luck.count < content.length then .unlinking
            else .publishing
          tmp := some (content.take luck.count) }
      else { saving with child := .unlinking }
  | .publishing =>
      if luck.renamed then
        { child := .ended, tmp := none, snap := saving.tmp }
      else { saving with child := .unlinking }
  | .unlinking => { saving with child := .ended, tmp := none }
  | .ended => saving

/-- A `write` that takes everything leaves the whole snapshot. -/
theorem step_writing {enableTtl : Bool} {luck : ChildLuck} {copy : Tables}
    (allocated : luck.allocated = true)
    (whole : (snapshotOf enableTtl luck.now copy).length ≤ luck.count)
    (tmp snap : Option Bytes) :
    Saving.step enableTtl luck
        { child := .writing copy, tmp := tmp, snap := snap } =
      { child := .publishing
        tmp := some (snapshotOf enableTtl luck.now copy)
        snap := snap } := by
  rw [Saving.step]
  dsimp only
  rw [if_pos allocated, if_neg (Nat.not_lt.mpr whole),
    List.take_of_length_le whole]

/-- The steps of a child that is not disturbed amount to a call of
`kvs_snapshot_save`. -/
theorem step_eq_kvsSnapshotSave (enableTtl : Bool) (luck : ChildLuck)
    (copy : Tables) (tmp snap : Option Bytes) :
    let alone := (Saving.step enableTtl luck)^[4]
      { child := .opening copy, tmp := tmp, snap := snap }
    alone.child = .ended ∧
      alone.snap =
        (kvsSnapshotSave
          { opened := luck.opened
            allocated := luck.allocated
            written := decide
              ((snapshotOf enableTtl luck.now copy).length ≤ luck.count)
            renamed := luck.renamed } enableTtl luck.now copy snap).1 := by
  obtain ⟨opened, allocated, renamed, now, count⟩ := luck
  by_cases short : count < (snapshotOf enableTtl now copy).length
  · have failed : decide ((snapshotOf enableTtl now copy).length ≤ count) =
        false := decide_eq_false (Nat.not_le_of_lt short)
    cases opened <;> cases allocated <;> cases renamed <;>
      simp [Saving.step, kvsSnapshotSave_eq, short, failed]
  · have whole : (snapshotOf enableTtl now copy).length ≤ count :=
      Nat.le_of_not_lt short
    cases opened <;> cases allocated <;> cases renamed <;>
      simp [Saving.step, kvsSnapshotSave_eq, short, whole,
        List.take_of_length_le]

/-! ## The server and its child -/

/-- A server, its child while `g_save_pid` names it, and the two files. -/
structure SaveSystem where
  globals : Globals Store
  child : Option Child
  tmp : Option Bytes
  snap : Option Bytes

/-- What a step means to the outside: a `SAVE` was answered with `+OK` ceased
some tables, or a file was renamed. -/
inductive Note where
  | quiet
  | accepted (copy : Tables)
  | published (content : Option Bytes)

/-- `waitpid` would report the end of the child. -/
def childEnded : Option Child → Bool
  | some .ended => true
  | _ => false

/-- The command forked. -/
def forks (cmd : Option Command) (reply : RespReply) : Bool :=
  decide (cmd.map Command.proc = some .sysSave) &&
    decide (reply.status = .success)

/-- The server executes a command. -/
def SaveSystem.request (flags : Flags) (mem : Bytes) (req : RespRequest)
    (cmd : Option Command) (system : SaveSystem) : SaveSystem × Note :=
  let result := kvsExecuteBatch flags system.globals mem req cmd
  if forks cmd result.2 then
    ({ system with
        globals := result.1
        child := some (.opening system.globals.store.tables) },
      .accepted system.globals.store.tables)
  else
    ({ system with
        globals := result.1
        child := if result.1.store.savePid then system.child else none },
      .quiet)

/-- What a step of the child means to the outside. -/
def Saving.note (luck : ChildLuck) (saving : Saving) : Note :=
  match saving.child with
  | .opening _ => .quiet
  | .writing _ => .quiet
  | .publishing => if luck.renamed then .published saving.tmp else .quiet
  | .unlinking => .quiet
  | .ended => .quiet

/-- The child takes a step. -/
def SaveSystem.childStep (enableTtl : Bool) (luck : ChildLuck)
    (child : Child) (system : SaveSystem) : SaveSystem × Note :=
  let before : Saving :=
    { child := child, tmp := system.tmp, snap := system.snap }
  let after := before.step enableTtl luck
  ({ system with
      child := some after.child
      tmp := after.tmp
      snap := after.snap },
    before.note luck)

/-- A change of the globals by another part of the server, which knows nothing
of the child and keeps the tables consistent. -/
structure Apart (change : Globals Store → Globals Store) : Prop where
  pid : ∀ globals, (change globals).store.savePid = globals.store.savePid
  valid : ∀ globals, Valid globals.store.tables →
    Valid (change globals).store.tables

/--
One step of the server, of the child, or of whoever kills the child.  What a
command finds out about the child is what is true of it.
-/
inductive Moves (flags : Flags) : SaveSystem → Note → SaveSystem → Prop where
  | request {system : SaveSystem} (mem : Bytes) (req : RespRequest)
      (cmd : Option Command)
      (honest : (system.globals.store.worlds
        system.globals.store.ticks).childEnded = childEnded system.child) :
      Moves flags system (system.request flags mem req cmd).2
        (system.request flags mem req cmd).1
  | other {system : SaveSystem} {change : Globals Store → Globals Store}
      (apart : Apart change) :
      Moves flags system .quiet
        { system with globals := change system.globals }
  | child {system : SaveSystem} {child : Child} (luck : ChildLuck)
      (alive : system.child = some child) :
      Moves flags system
        (system.childStep flags.enableTtl luck child).2
        (system.childStep flags.enableTtl luck child).1
  | kill {system : SaveSystem} {child : Child}
      (alive : system.child = some child) :
      Moves flags system .quiet { system with child := some .ended }

/-! ## Which commands look at the child -/

section Frames

variable (call : Call) (store : Store)

theorem reading_savePid (misused : Bool) (table : Table) :
    (reading misused table call store).1.savePid = store.savePid := by
  rw [reading]
  split_ifs <;> rfl

theorem deleting_savePid (misused : Bool) (table : Table) :
    (deleting misused table call store).1.savePid = store.savePid := by
  rw [deleting]
  split_ifs <;> rfl

theorem modifying_savePid (table : Table) :
    (modifying table call store).1.savePid = store.savePid := by
  rw [modifying]
  split_ifs <;> rfl

theorem testing_savePid (table : Table) :
    (testing table call store).1.savePid = store.savePid := by
  rw [testing]
  split_ifs <;> rfl

theorem timedSetting_savePid (type : Kivo.Server.Expire.ExpireType) :
    (timedSetting type call store).1.savePid = store.savePid := by
  rw [timedSetting]
  dsimp only
  split_ifs <;> rfl

/-- Only `SAVE` touches `g_save_pid`. -/
theorem run_savePid {proc : Proc} (other : proc ≠ .sysSave)
    (globals : Globals Store) :
    (proc.run call globals).1.store.savePid = globals.store.savePid := by
  have early : ∀ {misused : Prop} [Decidable misused]
      {result : Store × RespReply},
      result.1.savePid = globals.store.savePid →
        (if misused then parseError globals.store else result).1.savePid =
          globals.store.savePid := by
    intro misused _ result same
    split_ifs
    · rfl
    · exact same
  cases proc with
  | arraySet =>
      refine early ?_
      dsimp only
      split_ifs <;> rfl
  | arrayGet => exact reading_savePid _ _ _ _
  | arrayDel => exact deleting_savePid _ _ _ _
  | arrayMod => exact modifying_savePid _ _ _
  | arrayExists => exact testing_savePid _ _ _
  | rbtreeSet => exact timedSetting_savePid _ _ _
  | rbtreeGet => exact reading_savePid _ _ _ _
  | rbtreeDel => exact deleting_savePid _ _ _ _
  | rbtreeMod => exact modifying_savePid _ _ _
  | rbtreeExists => exact testing_savePid _ _ _
  | hashSet => exact timedSetting_savePid _ _ _
  | hashGet => exact reading_savePid _ _ _ _
  | hashDel => exact deleting_savePid _ _ _ _
  | hashMod => exact modifying_savePid _ _ _
  | hashExists => exact testing_savePid _ _ _
  | keep =>
      refine early ?_
      dsimp only
      split_ifs
      · rfl
      · split <;> rfl
  | match_ =>
      refine early ?_
      split
      · rfl
      · rfl
      · dsimp only
        split_ifs <;> rfl
  | setctx =>
      refine early ?_
      dsimp only
      split_ifs <;> rfl
  | getctx => exact reading_savePid _ _ _ _
  | delctx => exact deleting_savePid _ _ _ _
  | setrec => exact early rfl
  | getrec => exact reading_savePid _ _ _ _
  | getidxrec =>
      refine early ?_
      dsimp only
      split_ifs <;> rfl
  | setidx => exact early rfl
  | getidx => exact reading_savePid _ _ _ _
  | skipSet => exact timedSetting_savePid _ _ _
  | skipGet => exact reading_savePid _ _ _ _
  | skipDel => exact deleting_savePid _ _ _ _
  | skipMod => exact modifying_savePid _ _ _
  | skipExists => exact testing_savePid _ _ _
  | zadd =>
      refine early ?_
      dsimp only
      exact early rfl
  | zrange =>
      change (cmdZrange call globals.store).1.savePid = _
      exact @ranging_store
        (fun after => after.savePid = globals.store.savePid) _ _ _ rfl
        (fun _ => rfl)
  | zrangerec =>
      change (cmdZrangerec call globals.store).1.savePid = _
      exact @ranging_store
        (fun after => after.savePid = globals.store.savePid) _ _ _ rfl
        (fun _ => rfl)
  | sysSave => exact absurd rfl other
  | sysSync => rfl
  | sysSyncDone => rfl
  | sysMemtrim => exact early rfl

end Frames

/-- What `SAVE` makes of `g_save_pid`: it forks when no child is left, and
otherwise it forgets at most a child that has ended. -/
theorem save_cases (flags : Flags) (globals : Globals Store) (mem : Bytes)
    (req : RespRequest) {command : Command} (save : command.proc = .sysSave) :
    let ended := (globals.store.worlds globals.store.ticks).childEnded
    let result := kvsExecuteBatch flags globals mem req (some command)
    (result.2.status = .success ∧ result.1.store.savePid = true ∧
        (globals.store.savePid = true → ended = true)) ∨
      (result.2.status ≠ .success ∧
        (result.1.store.savePid = globals.store.savePid ∨
          (result.1.store.savePid = false ∧
            (globals.store.savePid = true → ended = true)))) := by
  simp only [kvsExecuteBatch, save, Proc.run, Proc.onStore, cmdSysSave]
  split_ifs with misused busy forked
  · exact Or.inr ⟨KvsStatus.noConfusion, Or.inl rfl⟩
  · exact Or.inr ⟨KvsStatus.noConfusion, Or.inl rfl⟩
  · refine Or.inl ⟨rfl, rfl, fun saving => ?_⟩
    by_contra alive
    exact busy ⟨saving, alive⟩
  · refine Or.inr ⟨KvsStatus.noConfusion, Or.inr ⟨rfl, fun saving => ?_⟩⟩
    by_contra alive
    exact busy ⟨saving, alive⟩

/-! ## What the file holds -/

/-- The tables of the `SAVE`s that were answered with `+OK`. -/
def savesOf (notes : List Note) : List Tables :=
  notes.filterMap
    (fun note =>
      match note with
      | .accepted copy => some copy
      | .quiet => none
      | .published _ => none)

/-- The files that were renamed to `kvstore.snap`. -/
def publishedOf (notes : List Note) : List (Option Bytes) :=
  notes.filterMap
    (fun note =>
      match note with
      | .published content => some content
      | .quiet => none
      | .accepted _ => none)

/-- The tables of a snapshot and the time at which it was taken. -/
abbrev Chosen : Type :=
  Tables × Int

/-- How far a child has come with the tables of the last `SAVE`. -/
def Pending (enableTtl : Bool) (tmp : Option Bytes) (saves : List Tables)
    (chosen : List Chosen) : Option Child → Prop
  | some (.opening copy) =>
      ∃ before, saves = before ++ [copy] ∧
        (chosen.map Prod.fst).Sublist before
  | some (.writing copy) =>
      ∃ before, saves = before ++ [copy] ∧
        (chosen.map Prod.fst).Sublist before
  | some .publishing =>
      ∃ before copy now, saves = before ++ [copy] ∧
        (chosen.map Prod.fst).Sublist before ∧
          tmp = some (snapshotOf enableTtl now copy)
  | some .unlinking => (chosen.map Prod.fst).Sublist saves
  | some .ended => (chosen.map Prod.fst).Sublist saves
  | none => (chosen.map Prod.fst).Sublist saves

/-- What holds of every reachable system. -/
structure SaveOk (enableTtl : Bool) (initial : Option Bytes)
    (system : SaveSystem) (notes : List Note) : Prop where
  pid : system.globals.store.savePid = system.child.isSome
  valid : Valid system.globals.store.tables
  saves : ∀ copy ∈ savesOf notes, Valid copy
  snap : system.snap = (publishedOf notes).getLast?.getD initial
  chosen : ∃ chosen : List Chosen,
    publishedOf notes =
        chosen.map (fun one => some (snapshotOf enableTtl one.2 one.1)) ∧
      Pending enableTtl system.tmp (savesOf notes) chosen system.child

/-- Whatever a child has done, its tables were those of an accepted `SAVE`. -/
theorem Pending.sublist {enableTtl : Bool} {tmp : Option Bytes}
    {saves : List Tables} {chosen : List Chosen} {child : Option Child}
    (pending : Pending enableTtl tmp saves chosen child) :
    (chosen.map Prod.fst).Sublist saves := by
  rcases child with - | child
  · exact pending
  · cases child with
    | opening copy =>
        obtain ⟨before, rfl, inside⟩ := pending
        exact inside.trans (List.sublist_append_left _ _)
    | writing copy =>
        obtain ⟨before, rfl, inside⟩ := pending
        exact inside.trans (List.sublist_append_left _ _)
    | publishing =>
        obtain ⟨before, copy, now, rfl, inside, -⟩ := pending
        exact inside.trans (List.sublist_append_left _ _)
    | unlinking => exact pending
    | ended => exact pending

section Steps

variable {flags : Flags} {initial : Option Bytes} {system : SaveSystem}
  {notes : List Note}

/-- A step that neither accepts nor publishes anything. -/
theorem SaveOk.quiet {enableTtl : Bool} {next : SaveSystem}
    (ok : SaveOk enableTtl initial system notes)
    (pid : next.globals.store.savePid = next.child.isSome)
    (valid : Valid next.globals.store.tables)
    (snap : next.snap = system.snap)
    (pending : ∀ saves chosen,
      Pending enableTtl system.tmp saves chosen system.child →
        Pending enableTtl next.tmp saves chosen next.child) :
    SaveOk enableTtl initial next (notes ++ [.quiet]) := by
  obtain ⟨chosen, published, inside⟩ := ok.chosen
  have same : publishedOf (notes ++ [.quiet]) = publishedOf notes := by
    rw [publishedOf, List.filterMap_append]
    exact List.append_nil _
  have same' : savesOf (notes ++ [.quiet]) = savesOf notes := by
    rw [savesOf, List.filterMap_append]
    exact List.append_nil _
  refine ⟨pid, valid, by rw [same']; exact ok.saves, ?_, chosen, ?_, ?_⟩
  · rw [snap, same, ok.snap]
  · rw [same, published]
  · rw [same']
    exact pending _ _ inside

omit initial notes in
/-- A child that `waitpid` reports is not at work. -/
theorem idle_of_ended {child : Option Child} {saving ended : Bool}
    (pid : saving = child.isSome) (honest : ended = childEnded child)
    (ceased : saving = true → ended = true) :
    child = none ∨ child = some .ended := by
  cases child with
  | none => exact Or.inl rfl
  | some child =>
      have reported := honest.symm.trans (ceased pid)
      cases child with
      | ended => exact Or.inr rfl
      | opening copy => cases reported
      | writing copy => cases reported
      | publishing => cases reported
      | unlinking => cases reported

section Requests

variable {mem : Bytes} {req : RespRequest} {cmd : Option Command}
  (honest : (system.globals.store.worlds
    system.globals.store.ticks).childEnded = childEnded system.child)
  (pid : system.globals.store.savePid = system.child.isSome)

include honest pid

/-- A command that does not fork forgets at most a child that has ended. -/
theorem request_pid
    (stays : forks cmd
      (kvsExecuteBatch flags system.globals mem req cmd).2 = false) :
    (kvsExecuteBatch flags system.globals mem req cmd).1.store.savePid =
        system.globals.store.savePid ∨
      ((kvsExecuteBatch flags system.globals mem req cmd).1.store.savePid =
          false ∧ (system.child = none ∨ system.child = some .ended)) := by
  cases cmd with
  | none => exact Or.inl rfl
  | some command =>
      by_cases save : command.proc = .sysSave
      · rcases save_cases flags system.globals mem req save with
          ⟨success, -, -⟩ | ⟨-, same | ⟨gone, ceased⟩⟩
        · rw [forks, success, Option.map_some, save] at stays
          cases stays
        · exact Or.inl same
        · exact Or.inr ⟨gone, idle_of_ended pid honest ceased⟩
      · exact Or.inl (run_savePid _ save _)

/-- A command that forks finds no child at work. -/
theorem request_forks
    (forked : forks cmd
      (kvsExecuteBatch flags system.globals mem req cmd).2 = true) :
    (kvsExecuteBatch flags system.globals mem req cmd).1.store.savePid =
        true ∧
      (system.child = none ∨ system.child = some .ended) := by
  rw [forks, Bool.and_eq_true, decide_eq_true_iff, decide_eq_true_iff]
    at forked
  obtain ⟨command, rfl, save⟩ := Option.map_eq_some_iff.mp forked.1
  rcases save_cases flags system.globals mem req save with
    ⟨-, saving, ceased⟩ | ⟨other, -⟩
  · exact ⟨saving, idle_of_ended pid honest ceased⟩
  · exact absurd forked.2 other

end Requests

/-- A command. -/
theorem SaveOk.request (ok : SaveOk flags.enableTtl initial system notes)
    (mem : Bytes) (req : RespRequest) (cmd : Option Command)
    (honest : (system.globals.store.worlds
      system.globals.store.ticks).childEnded = childEnded system.child) :
    SaveOk flags.enableTtl initial (system.request flags mem req cmd).1
      (notes ++ [(system.request flags mem req cmd).2]) := by
  have after := kvsExecuteBatch_valid ok.valid flags mem req cmd
  rw [SaveSystem.request]
  by_cases forked : forks cmd
      (kvsExecuteBatch flags system.globals mem req cmd).2 = true
  · rw [if_pos forked]
    obtain ⟨saving, idle⟩ := request_forks honest ok.pid forked
    obtain ⟨chosen, published, inside⟩ := ok.chosen
    have same : publishedOf (notes ++
        [.accepted system.globals.store.tables]) = publishedOf notes := by
      rw [publishedOf, List.filterMap_append]
      exact List.append_nil _
    have more : savesOf (notes ++
        [.accepted system.globals.store.tables]) =
          savesOf notes ++ [system.globals.store.tables] := by
      rw [savesOf, List.filterMap_append]
      rfl
    refine ⟨saving, after, ?_, ?_, chosen, ?_, ?_⟩
    · intro copy member
      rw [more] at member
      rcases List.mem_append.mp member with old | new
      · exact ok.saves copy old
      · rw [List.mem_singleton.mp new]
        exact ok.valid
    · rw [same]
      exact ok.snap
    · rw [same, published]
    · exact ⟨savesOf notes, more, inside.sublist⟩
  · rw [if_neg forked]
    rw [Bool.not_eq_true] at forked
    rcases request_pid honest ok.pid forked with same | ⟨gone, idle⟩
    · refine ok.quiet ?_ after rfl ?_
      · dsimp only
        rw [same]
        cases saving : system.globals.store.savePid with
        | true => rw [if_pos rfl, ← ok.pid, saving]
        | false => rfl
      · intro saves chosen pending
        dsimp only
        split_ifs
        · exact pending
        · exact pending.sublist
    · refine ok.quiet ?_ after rfl ?_
      · dsimp only
        rw [gone]
        rfl
      · intro saves chosen pending
        dsimp only
        rw [gone]
        exact pending.sublist

/-- A step of the child. -/
theorem SaveOk.child (ok : SaveOk flags.enableTtl initial system notes)
    {child : Child} (luck : ChildLuck) (alive : system.child = some child) :
    SaveOk flags.enableTtl initial
      (system.childStep flags.enableTtl luck child).1
      (notes ++ [(system.childStep flags.enableTtl luck child).2]) := by
  have saving : system.globals.store.savePid = true := by
    rw [ok.pid, alive]
    rfl
  have stays : ∀ (next : Child) (tmp : Option Bytes),
      (∀ saves chosen,
        Pending flags.enableTtl system.tmp saves chosen (some child) →
          Pending flags.enableTtl tmp saves chosen (some next)) →
      SaveOk flags.enableTtl initial
        { system with child := some next, tmp := tmp }
        (notes ++ [.quiet]) := by
    intro next tmp pending
    refine ok.quiet saving ok.valid rfl ?_
    rw [alive]
    exact pending
  cases child with
  | opening copy =>
      simp only [SaveSystem.childStep, Saving.step, Saving.note]
      split_ifs with opened
      · exact stays (.writing copy) (some []) (fun _ _ pending => pending)
      · exact stays .ended system.tmp (fun _ _ pending => pending.sublist)
  | writing copy =>
      simp only [SaveSystem.childStep, Saving.step, Saving.note]
      split_ifs with allocated short
      · exact stays .unlinking _ (fun _ _ pending => pending.sublist)
      · refine stays .publishing _ ?_
        rintro saves chosen ⟨before, split, inside⟩
        exact ⟨before, copy, luck.now, split, inside,
          congrArg some (List.take_of_length_le (Nat.le_of_not_lt short))⟩
      · exact stays .unlinking system.tmp
          (fun _ _ pending => pending.sublist)
  | publishing =>
      simp only [SaveSystem.childStep, Saving.step, Saving.note]
      split_ifs with renamed
      · obtain ⟨chosen, published, inside⟩ := ok.chosen
        rw [alive] at inside
        obtain ⟨before, copy, now, split, earlier, content⟩ := inside
        have same : savesOf (notes ++ [.published system.tmp]) =
            savesOf notes := by
          rw [savesOf, List.filterMap_append]
          exact List.append_nil _
        have more : publishedOf (notes ++ [.published system.tmp]) =
            publishedOf notes ++ [system.tmp] := by
          rw [publishedOf, List.filterMap_append]
          rfl
        refine ⟨saving, ok.valid, by rw [same]; exact ok.saves, ?_,
          chosen ++ [(copy, now)], ?_, ?_⟩
        · rw [more, List.getLast?_concat]
          rfl
        · rw [more, published, List.map_append, content]
          rfl
        · rw [same, split]
          show (List.map Prod.fst (chosen ++ [(copy, now)])).Sublist
            (before ++ [copy])
          rw [List.map_append]
          exact earlier.append (List.Sublist.refl _)
      · exact stays .unlinking system.tmp
          (fun _ _ pending => pending.sublist)
  | unlinking => exact stays .ended none (fun _ _ pending => pending)
  | ended => exact stays .ended system.tmp (fun _ _ pending => pending)

/-- Any step. -/
theorem SaveOk.step (ok : SaveOk flags.enableTtl initial system notes)
    {note : Note} {next : SaveSystem} (moved : Moves flags system note next) :
    SaveOk flags.enableTtl initial next (notes ++ [note]) := by
  cases moved with
  | request mem req cmd honest => exact ok.request mem req cmd honest
  | other apart =>
      refine ok.quiet ?_ (apart.valid _ ok.valid) rfl
        (fun _ _ pending => pending)
      exact (apart.pid _).trans ok.pid
  | child luck alive => exact ok.child luck alive
  | kill alive =>
      refine ok.quiet ?_ ok.valid rfl (fun _ _ pending => pending.sublist)
      rw [ok.pid, alive]
      rfl

/-- Any run. -/
theorem SaveOk.run (ok : SaveOk flags.enableTtl initial system notes)
    {later : List Note} {last : SaveSystem}
    (traced : Traced (Moves flags) system later last) :
    SaveOk flags.enableTtl initial last (notes ++ later) := by
  induction traced generalizing notes with
  | nil =>
      rw [List.append_nil]
      exact ok
  | cons first rest induction =>
      rw [List.append_cons]
      exact induction (ok.step first)

end Steps

/--
In every run of a server whose children are forked, fail and are killed at any
time, the files that become `kvstore.snap` are complete snapshots of the
tables at `SAVE`s that were answered with `+OK`, at most one for each and in
their order; at every moment the file is the last of them, or the one from
before.  When its records keep the limits of the reader, a later start loads
exactly the entries that the walks of the child handed over and that have not
expired since.
-/
theorem save_publishes_snapshots {flags : Flags} {start system : SaveSystem}
    {notes : List Note} (alone : start.child = none)
    (unset : start.globals.store.savePid = false)
    (valid : Valid start.globals.store.tables)
    (traced : Traced (Moves flags) start notes system) :
    ∃ chosen : List Chosen,
      publishedOf notes = chosen.map (fun one =>
          some (snapshotOf flags.enableTtl one.2 one.1)) ∧
        (chosen.map Prod.fst).Sublist (savesOf notes) ∧
        system.snap = (publishedOf notes).getLast?.getD start.snap ∧
        ∀ copy saved, chosen.getLast? = some (copy, saved) →
          (∀ record ∈ snapshotRecords flags.enableTtl saved copy,
            Within record.entry ∧ Timed record.entry) →
          ∀ now draw, ∃ loaded,
            kvsSnapshotLoad true draw now system.snap Tables.create =
                (loaded, 0) ∧
              ∀ table, ((loaded.entries table).map Entry.key).Nodup ∧
                ∀ entry, entry ∈ loaded.entries table ↔
                  entry ∈ snapshotWalk flags.enableTtl saved copy table ∧
                    ¬ Expired true now entry.expireTime := by
  have initial : SaveOk flags.enableTtl start.snap start [] := by
    refine ⟨?_, valid, fun copy member => absurd member List.not_mem_nil, rfl,
      [], rfl, ?_⟩
    · rw [unset, alone]
      rfl
    · rw [alone]
      exact List.Sublist.refl _
  have ok := initial.run traced
  rw [List.nil_append] at ok
  obtain ⟨chosen, published, inside⟩ := ok.chosen
  refine ⟨chosen, published, inside.sublist, ok.snap, ?_⟩
  intro copy saved last limits now draw
  have content : system.snap =
      some (snapshotOf flags.enableTtl saved copy) := by
    rw [ok.snap, published, List.getLast?_map, last]
    rfl
  have member : copy ∈ savesOf notes := inside.sublist.subset
    (List.mem_map_of_mem (List.mem_of_getLast? last))
  rw [content]
  exact kvsSnapshotLoad_saved (ok.saves copy member)
    (fun record inside => (limits record inside).1)
    (fun record inside => (limits record inside).2) now draw

/-- A server with TTL. -/
def savingFlags : Flags :=
  { plainFlags with enableTtl := true }

/-- A server that can fork, with some keys in its tables. -/
def forkingServer : SaveSystem :=
  let fresh := freshSession (fun _ => { (default : World) with forked := true })
  { globals :=
      { fresh.globals with
        store := { fresh.globals.store with tables := fewKeys true } }
    child := none
    tmp := none
    snap := none }

/-- Every call of the child succeeds. -/
def wholeLuck : ChildLuck :=
  { opened := true
    allocated := true
    renamed := true
    now := 4
    count := 4096 }

/-- A `SAVE` without arguments. -/
def saveRequest : RespRequest :=
  { argc := 1, argv := [], argvLen := [], isDynamic := false }

theorem fewKeys_keyed (table : Table) :
    (fewKeys true).keyed table = fewEntries table := by
  cases table with
  | array => decide +kernel
  | rbtree => decide +kernel
  | hash name => cases name <;> decide +kernel
  | skip => decide +kernel

theorem fewKeys_limits (saved : Int) :
    ∀ record ∈ snapshotRecords true saved (fewKeys true),
      Within record.entry ∧ Timed record.entry := by
  intro record member
  have walked := mem_snapshotRecords.mp member
  rw [mem_snapshotWalk (fewKeys_reachable true).valid, fewKeys_keyed]
    at walked
  exact fewEntries_within record.table record.entry walked.2.1

/-- A `SAVE` over several tables, whose child is not disturbed.  Of their keys a
later start loads those that never expire, and none that has expired. -/
theorem save_publishes_snapshots_fewKeys :
    ∃ (system : SaveSystem) (notes : List Note) (loaded : Tables),
      Traced (Moves savingFlags) forkingServer notes system ∧
        publishedOf notes = [some (snapshotOf true 4 (fewKeys true))] ∧
        kvsSnapshotLoad true (fun _ => 0) 6 system.snap Tables.create =
          (loaded, 0) ∧
        (∀ table, ∀ entry ∈ fewEntries table, entry.expireTime = 0 →
          entry ∈ loaded.entries table) ∧
        ∀ table, ∀ entry ∈ loaded.entries table,
          entry ∈ fewEntries table ∧ entry.expireTime ≠ 5 := by
  let one := (forkingServer.request savingFlags [] saveRequest
    (some ⟨ascii "SAVE", .sysSave⟩)).1
  let two := (one.childStep true wholeLuck (.opening (fewKeys true))).1
  let three := (two.childStep true wholeLuck (.writing (fewKeys true))).1
  have written := @step_writing true wholeLuck (fewKeys true) rfl
    (by decide +kernel) two.tmp two.snap
  have renames : three.child = some .publishing :=
    congrArg (fun saving => some (Saving.child saving)) written
  have content : three.tmp = some (snapshotOf true 4 (fewKeys true)) :=
    congrArg Saving.tmp written
  have asked : Moves savingFlags forkingServer _ one :=
    .request [] saveRequest (some ⟨ascii "SAVE", .sysSave⟩) rfl
  have opened : Moves savingFlags one _ two := .child wholeLuck rfl
  have wrote : Moves savingFlags two _ three := .child wholeLuck rfl
  have traced := Traced.cons asked (.cons opened (.cons wrote
    (.cons (.child wholeLuck renames) .nil)))
  have noted : publishedOf [Note.accepted (fewKeys true), .quiet, .quiet,
      .published three.tmp] = [some (snapshotOf true 4 (fewKeys true))] :=
    congrArg (fun tmp => [tmp]) content
  obtain ⟨chosen, published, inside, -, loads⟩ := save_publishes_snapshots
    rfl rfl (fewKeys_reachable true).valid traced
  obtain ⟨⟨copy, saved⟩, rfl⟩ : ∃ only, chosen = [only] := by
    refine List.length_eq_one_iff.mp ?_
    have count := congrArg List.length (published.symm.trans noted)
    rw [List.length_map] at count
    exact count
  obtain rfl : copy = fewKeys true := List.mem_singleton.mp
    (inside.subset (List.mem_singleton_self copy))
  obtain ⟨loaded, read, holds⟩ := loads (fewKeys true) saved rfl
    (fewKeys_limits saved) 6 (fun _ => 0)
  refine ⟨_, _, loaded, traced, noted, read, ?_, ?_⟩
  · intro table entry member always
    have timely : ∀ now, ¬ Expired true now entry.expireTime := by
      rintro now ⟨-, positive, -⟩
      omega
    refine ((holds table).2 entry).mpr ⟨?_, timely 6⟩
    rw [mem_snapshotWalk (fewKeys_reachable true).valid, fewKeys_keyed]
    exact ⟨⟨fun _ => rfl, fun _ => by decide +kernel⟩, member, timely saved⟩
  · intro table entry member
    obtain ⟨walked, timely⟩ := ((holds table).2 entry).mp member
    rw [mem_snapshotWalk (fewKeys_reachable true).valid, fewKeys_keyed]
      at walked
    refine ⟨walked.2.1, fun late => timely ⟨rfl, ?_, ?_⟩⟩
    · rw [late]
      decide
    · rw [late]
      decide

end Kivo.Persistence.SaveProcess
