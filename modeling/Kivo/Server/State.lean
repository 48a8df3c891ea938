import Kivo.Clib.Memory
import Kivo.Clib.Ring

/-!
# Configuration flags and replication globals

The process-wide variables that the protocol layer shares with the command
handlers: the flags `main` derives from the configuration file, the file
descriptor of the slave and the ring of frames that still have to be sent to
it.  Writes to the append-only file are recorded as the sequence of
arguments handed to `kvs_persistence_write`; what becomes of them on disk is
the business of the persistence layer.
-/

namespace Kivo.Server.State

open Kivo.Clib.Memory
open Kivo.Clib.Ring

/-- The `g_enable_*` and `g_use_*` flags that the modelled code reads. -/
structure Flags where
  enablePersistence : Bool
  enableTtl : Bool
  enableReplMaster : Bool
  enableReplSlave : Bool
  useTcpSync : Bool
deriving DecidableEq, Repr

/-- The condition under which write commands reach `kvs_persistence_write`. -/
def Flags.logsWrites (flags : Flags) : Bool :=
  flags.enablePersistence || flags.enableReplMaster || flags.enableReplSlave

/-- `REPL_BACKLOG_MAX`. -/
def replBacklogMax : Nat := 100000

/--
The replication globals: `g_slave_fd`, `g_sync_file_done`,
`g_repl_backlog_enabled` and the ring `g_repl_backlog` with its indices.
-/
structure ReplState where
  slaveFd : Int
  syncFileDone : Bool
  backlogEnabled : Bool
  slots : Nat → Bytes
  head : Nat
  tail : Nat
  count : Nat

/-- The replication globals at program start. -/
def ReplState.initial : ReplState :=
  { slaveFd := -1
    syncFileDone := false
    backlogEnabled := false
    slots := fun _ => []
    head := 0
    tail := 0
    count := 0 }

/-- The guard of both places that append to the backlog. -/
def ReplState.accepts (flags : Flags) (repl : ReplState) : Bool :=
  decide (0 < repl.slaveFd) && flags.enableReplMaster &&
    ((flags.useTcpSync && repl.syncFileDone) || repl.backlogEnabled)

/-- Append a frame to the ring; a full ring drops it. -/
def ReplState.push (repl : ReplState) (frame : Bytes) : ReplState :=
  if repl.count < replBacklogMax then
    { repl with
      slots := setSlot repl.slots repl.tail frame
      tail := (repl.tail + 1) % replBacklogMax
      count := repl.count + 1 }
  else repl

/-- The step both places take behind the log: queue the frame for the slave. -/
def ReplState.queue (flags : Flags) (repl : ReplState) (frame : Bytes) :
    ReplState :=
  if repl.accepts flags then repl.push frame else repl

/-- The process-wide state, over the state `σ` of the storage engines. -/
structure Globals (σ : Type) where
  store : σ
  persisted : List Bytes
  repl : ReplState

/-- The write-ahead step: log the frame, then queue it for the slave. -/
def Globals.logFrame {σ : Type} (flags : Flags) (globals : Globals σ)
    (frame : Bytes) : Globals σ :=
  { globals with
    persisted :=
      if flags.logsWrites then globals.persisted ++ [frame]
      else globals.persisted
    repl := globals.repl.queue flags frame }

/-! ## The backlog as a list -/

/-- The frames of the backlog, oldest first. -/
def ReplState.backlog (repl : ReplState) : List Bytes :=
  ringContents replBacklogMax repl.slots repl.head repl.count

/-- The indices of the ring agree with its count. -/
structure BacklogOk (repl : ReplState) : Prop where
  count : repl.count ≤ replBacklogMax
  head : repl.head < replBacklogMax
  tail : repl.tail = (repl.head + repl.count) % replBacklogMax

theorem backlogOk_initial : BacklogOk ReplState.initial :=
  ⟨by decide, by decide, by decide⟩

theorem BacklogOk.push {repl : ReplState} (ok : BacklogOk repl)
    (room : repl.count < replBacklogMax) (frame : Bytes) :
    BacklogOk (repl.push frame) ∧
      (repl.push frame).backlog = repl.backlog ++ [frame] := by
  rw [ReplState.push, if_pos room]
  refine ⟨⟨room, ok.head, ?_⟩, ?_⟩
  · dsimp only
    rw [ok.tail, Nat.mod_add_mod, Nat.add_assoc]
  · rw [ReplState.backlog, ReplState.backlog, ok.tail]
    exact ringContents_push repl.slots frame room

@[simp]
theorem Globals.logFrame_store {σ : Type} (flags : Flags)
    (globals : Globals σ) (frame : Bytes) :
    (globals.logFrame flags frame).store = globals.store :=
  rfl

theorem Globals.logFrame_persisted {σ : Type} {flags : Flags}
    (globals : Globals σ) (frame : Bytes)
    (logging : flags.logsWrites = true) :
    (globals.logFrame flags frame).persisted =
      globals.persisted ++ [frame] := by
  simp [Globals.logFrame, logging]

end Kivo.Server.State
