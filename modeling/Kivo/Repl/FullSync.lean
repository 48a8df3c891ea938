import Kivo.Clib.Wire
import Kivo.Persistence.Recovery
import Kivo.Persistence.TwinReplay

/-!
# The slave's end of a full synchronisation

`tcp_sendfile_recv_thread` receives the master's append-only file behind an
eight-byte size, writes it over the slave's own file and recovers from it.  It
does not empty the tables first: what the slave recovered at start-up from a
file or a snapshot of its own is still there when the replay begins, and the
replay says nothing about the keys that the master never had.

This module follows the thread through partial reads and writes and compares
the tables it leaves behind with a replay of the master's file into empty
tables.  They agree for every file exactly when the slave had nothing stored.
-/

namespace Kivo.Repl.FullSync

open Kivo.Clib.Memory
open Kivo.Clib.Wire
open Kivo.Engine
open Kivo.Engine.Data
open Kivo.Engine.Store
open Kivo.Resp.Frame
open Kivo.Resp.Canonical
open Kivo.Resp.Stream
open Kivo.Server.State
open Kivo.Server.Commands
open Kivo.Server.CommandTable
open Kivo.Server.Requests (commandNamed)
open Kivo.Server.Changes
open Kivo.Server.Alignment (freshSession plainFlags)
open Kivo.Persistence.Log
open Kivo.Persistence.Recovery
open Kivo.Persistence.Replay
open Kivo.Persistence.TwinReplay

/-! ## Receiving the file -/

/-- `htobe64`. -/
def htobe64 (value : Nat) : Bytes :=
  (leBytes 8 value).reverse

/-- `be64toh`. -/
def be64toh (bytes : Bytes) : Nat :=
  leValue bytes.reverse

/-- The result of one `splice` from the pipe to the file. -/
inductive PipeResult where
  | moved (count : Nat)
  | again
  | failed
deriving DecidableEq, Repr

/--
The inner loop: the bytes that reached the file and whether the pipe was
emptied; `none` says that the loop has not ended yet.
-/
def drainPipe : List PipeResult → Bytes → Option (Bytes × Bool)
  | [], pipe => if pipe.length = 0 then some ([], true) else none
  | result :: results, pipe =>
      if pipe.length = 0 then some ([], true)
      else
        match result with
        | .again => drainPipe results pipe
        | .failed => some ([], false)
        | .moved count =>
            if min count pipe.length = 0 then some ([], false)
            else
              (drainPipe results (pipe.drop (min count pipe.length))).map
                (fun rest =>
                  (pipe.take (min count pipe.length) ++ rest.1, rest.2))

/-- The result of one `splice` from the socket to the pipe, and how the bytes
it moved are taken from the pipe to the file. -/
inductive SpliceResult where
  | moved (count : Nat) (writes : List PipeResult)
  | again
  | failed
deriving DecidableEq, Repr

/--
The outer loop: the bytes that reached the file and `remaining` at its end;
`none` says that the loop has not ended yet.
-/
def spliceLoop : List SpliceResult → Bytes → Nat → Option (Bytes × Nat)
  | [], _, remaining => if remaining = 0 then some ([], 0) else none
  | result :: results, incoming, remaining =>
      if remaining = 0 then some ([], 0)
      else
        match result with
        | .again => spliceLoop results incoming remaining
        | .failed => some ([], remaining)
        | .moved count writes =>
            let spliced := min count (min remaining incoming.length)
            if spliced = 0 then some ([], remaining)
            else
              match drainPipe writes (incoming.take spliced) with
              | none => none
              | some (written, false) => some (written, remaining)
              | some (written, true) =>
                  (spliceLoop results (incoming.drop spliced)
                    (remaining - spliced)).map
                    (fun rest => (written ++ rest.1, rest.2))

/-- What the thread meets on its socket: what `recv` returned for the size,
whether the file and the pipe could be opened, the bytes that follow and how
they come in. -/
structure Transfer where
  header : Bytes
  opened : Bool
  piped : Bool
  incoming : Bytes
  splices : List SpliceResult

/-- What the thread leaves behind; `done` says that it sent `SYNC_DONE`. -/
structure SyncResult where
  aof : Aof
  session : Session Store
  done : Bool

/-- `tcp_sendfile_recv_thread`; `none` says that it has not ended yet. -/
def tcpSendfileRecvThread (flags : Flags) (fuel : Nat) (transfer : Transfer)
    (a : Aof) (session : Session Store) : Option SyncResult :=
  if transfer.header.length ≠ 8 then some ⟨a, session, false⟩
  else if be64toh transfer.header = 0 then
    some ⟨{ a with file := if transfer.opened then [] else a.file }, session,
      false⟩
  else if transfer.opened = false then some ⟨a, session, false⟩
  else if transfer.piped = false then
    some ⟨{ a with file := [] }, session, false⟩
  else
    match spliceLoop transfer.splices transfer.incoming
        (be64toh transfer.header) with
    | none => none
    | some (file, remaining) =>
        if remaining = 0 then
          (kvsPersistenceRecover (commandLayer flags) fuel
            { a with file := file } session).map
            (fun result => ⟨result.1, result.2, true⟩)
        else some ⟨{ a with file := file }, session, false⟩

/-! ## Complete transfers -/

theorem be64toh_htobe64 {value : Nat} (fits : value < 2 ^ 64) :
    be64toh (htobe64 value) = value := by
  rw [be64toh, htobe64, List.reverse_reverse, leValue_leBytes]
  exact Nat.mod_eq_of_lt fits

/-- An emptied pipe has reached the file. -/
theorem drainPipe_complete {results : List PipeResult} {pipe written : Bytes}
    (emptied : drainPipe results pipe = some (written, true)) :
    written = pipe := by
  induction results generalizing pipe written with
  | nil =>
      rw [drainPipe] at emptied
      split_ifs at emptied with empty
      cases emptied
      exact (List.eq_nil_of_length_eq_zero empty).symm
  | cons result results induction =>
      unfold drainPipe at emptied
      split_ifs at emptied with empty
      · cases emptied
        exact (List.eq_nil_of_length_eq_zero empty).symm
      · cases result with
        | again => exact induction emptied
        | failed => cases emptied
        | moved count =>
            dsimp only at emptied
            split_ifs at emptied with stuck
            · cases emptied
            · obtain ⟨⟨rest, flag⟩, later, shape⟩ :=
                Option.map_eq_some_iff.mp emptied
              cases shape
              rw [induction later]
              exact List.take_append_drop _ _

/-- A transfer that left nothing remaining wrote the announced bytes. -/
theorem spliceLoop_complete {results : List SpliceResult}
    {incoming file : Bytes} {remaining : Nat}
    (ended : spliceLoop results incoming remaining = some (file, 0)) :
    file = incoming.take remaining := by
  induction results generalizing incoming remaining file with
  | nil =>
      rw [spliceLoop] at ended
      split_ifs at ended with zero
      cases ended
      rw [zero, List.take_zero]
  | cons result results induction =>
      unfold spliceLoop at ended
      split_ifs at ended with zero
      · cases ended
        rw [zero, List.take_zero]
      · cases result with
        | again => exact induction ended
        | failed =>
            cases ended
            exact absurd rfl zero
        | moved count writes =>
            dsimp only at ended
            split_ifs at ended with stuck
            · cases ended
              exact absurd rfl zero
            · split at ended
              · cases ended
              · cases ended
                exact absurd rfl zero
              · rename_i written drained
                obtain ⟨⟨rest, left⟩, later, shape⟩ :=
                  Option.map_eq_some_iff.mp ended
                cases shape
                have spliced : min count (min remaining incoming.length) ≤
                    remaining := by omega
                rw [drainPipe_complete drained, induction later,
                  ← List.take_add]
                congr 1
                omega

/-- The socket delivers a file behind its size. -/
structure Transfer.Carries (transfer : Transfer) (log : Bytes) : Prop where
  size : log.length < 2 ^ 64
  header : transfer.header = htobe64 log.length
  incoming : log <+: transfer.incoming

/-- A thread that sent `SYNC_DONE` has recovered from the master's file. -/
theorem tcpSendfileRecvThread_done {flags : Flags} {fuel : Nat}
    {transfer : Transfer} {log : Bytes} {a : Aof} {session : Session Store}
    {result : SyncResult} (carries : transfer.Carries log)
    (ended : tcpSendfileRecvThread flags fuel transfer a session =
      some result) (done : result.done = true) :
    kvsPersistenceRecover (commandLayer flags) fuel { a with file := log }
        session = some (result.aof, result.session) := by
  have size : be64toh transfer.header = log.length := by
    rw [carries.header, be64toh_htobe64 carries.size]
  obtain ⟨later, split⟩ := carries.incoming
  unfold tcpSendfileRecvThread at ended
  rw [size] at ended
  split_ifs at ended
  · cases ended
    cases done
  · cases ended
    cases done
  · cases ended
    cases done
  · cases ended
    cases done
  · cases ended
    cases done
  · split at ended
    · cases ended
    · rename_i file remaining received
      split_ifs at ended with complete
      · rw [complete] at received
        obtain ⟨pair, recovered, shape⟩ := Option.map_eq_some_iff.mp ended
        subst shape
        rw [spliceLoop_complete received, ← split,
          List.take_left] at recovered
        exact recovered
      · cases ended
        cases done

/-! ## The tables after a synchronisation -/

/--
Whatever file the master sends completely, the tables after the thread are
those of a replay of that file into empty tables, at any clock and with any
levels drawn.
-/
def Rebuilds (flags : Flags) (prior : Session Store) : Prop :=
  ∀ (fuel : Nat) (transfer : Transfer) (log : Bytes) (a : Aof)
    (result : SyncResult),
    transfer.Carries log →
    tcpSendfileRecvThread flags fuel transfer a prior = some result →
    result.done = true →
    ∀ (fuel' : Nat) (b : Aof) (fresh : Session Store)
      (replayed : Aof × Session Store),
      fresh.globals.store.tables = Tables.create →
      kvsPersistenceRecover (commandLayer flags) fuel' { b with file := log }
        fresh = some replayed →
      ∀ table, SameMap result.session.globals.store.tables
        replayed.2.globals.store.tables table

/-- A slave with empty tables is rebuilt. -/
theorem rebuilds_of_empty {flags : Flags} (off : flags.enableTtl = false)
    {prior : Session Store} (valid : Valid prior.globals.store.tables)
    (empty : ∀ table, prior.globals.store.tables.entries table = []) :
    Rebuilds flags prior := by
  intro fuel transfer log a result carries ended done fuel' b fresh replayed
    created recovered table
  have slave := tcpSendfileRecvThread_done carries ended done
  have twins : TwinSessions prior fresh := by
    rw [TwinSessions, created]
    exact twins_create valid empty
  obtain ⟨final, again, kept⟩ := kvsPersistenceRecover_twins off
    (show ({ a with file := log } : Aof).file =
      ({ b with file := log } : Aof).file from rfl) twins slave
  have same := kvsPersistenceRecover_unique again recovered
  rw [← same]
  exact Twins.sameMap kept table

/-- `SET` without arguments, a frame that a master logs and that changes
nothing. -/
def bareSet : Bytes :=
  respEncode [ascii "SET"]

/-- The transfer of a short file in one piece. -/
def Transfer.whole (log : Bytes) : Transfer :=
  { header := htobe64 log.length
    opened := true
    piped := true
    incoming := log
    splices := [.moved log.length [.moved log.length]] }

theorem Transfer.whole_carries :
    (Transfer.whole bareSet).Carries bareSet :=
  ⟨by decide, rfl, List.prefix_rfl⟩

/-- The replay of the bare frame ends and changes nothing. -/
theorem recover_bareSet {flags : Flags} (off : flags.enableTtl = false)
    (b : Aof) (session : Session Store) :
    ∃ fuel result,
      kvsPersistenceRecover (commandLayer flags) fuel
        { b with file := bareSet } session = some result ∧
      result.2.globals.store.tables = session.globals.store.tables := by
  have stored : Holds bareSet 0 (respEncode [ascii "SET"]) :=
    ⟨Int.le_refl 0, List.prefix_rfl⟩
  have stream : Holds bareSet 0 (respStream [[ascii "SET"]]) :=
    ⟨Int.le_refl 0, by decide⟩
  have replay := protocolProcessRecover_canonical (commandLayer flags)
    session stream (by decide) (Nat.lt_succ_self 1)
  have window : toInt32 (bareSet.length : Int) =
      ((respStream [[ascii "SET"]]).length : Int) := by decide
  refine ⟨2,
    ({ b with file := bareSet, fd := .append, offset := bareSet.length },
      replayCommand (commandLayer flags) bareSet 0
        (respEncode [ascii "SET"]).length session), ?_, ?_⟩
  · rw [kvsPersistenceRecover, if_neg (show ¬ bareSet.length = 0 by decide)]
    dsimp only
    rw [window, replay]
    rfl
  · have tables := replayCommand_tables stored (by decide)
      (show Steady flags [ascii "SET"] from Or.inl off) session
    have idle : ∀ expire context,
        commandChange [ascii "SET"] expire context = .keep := by
      intro expire context
      rw [commandChange, show commandNamed ([ascii "SET"].getD 0 []) =
        some ⟨ascii "SET", .arraySet⟩ by decide +kernel]
      rfl
    rw [Call.after, idle] at tables
    exact tables

/-- The thread receives the bare frame and recovers from it. -/
theorem tcpSendfileRecvThread_bareSet {flags : Flags} {fuel : Nat} {a : Aof}
    {session : Session Store} {result : Aof × Session Store}
    (recovered : kvsPersistenceRecover (commandLayer flags) fuel
      { a with file := bareSet } session = some result) :
    tcpSendfileRecvThread flags fuel (Transfer.whole bareSet) a session =
      some ⟨result.1, result.2, true⟩ := by
  have received : spliceLoop (Transfer.whole bareSet).splices
      (Transfer.whole bareSet).incoming
      (be64toh (Transfer.whole bareSet).header) = some (bareSet, 0) := by
    decide
  unfold tcpSendfileRecvThread
  rw [if_neg (by decide), if_neg (by decide), if_neg (by decide),
    if_neg (by decide), received]
  dsimp only
  rw [if_pos rfl, recovered]
  rfl

theorem entries_create (table : Table) :
    Tables.create.entries table = [] := by
  cases table with
  | array => rfl
  | rbtree => exact RbtreeOrder.entries_create
  | hash name => rfl
  | skip => exact SkipOrder.entries_create

/-- A slave that is rebuilt from a file without effect held nothing. -/
theorem Rebuilds.entries_eq_nil {flags : Flags}
    (off : flags.enableTtl = false) {prior : Session Store}
    (rebuilds : Rebuilds flags prior) (table : Table) :
    prior.globals.store.tables.entries table = [] := by
  obtain ⟨fuel, slave, ended, kept⟩ := recover_bareSet off
    (kvsPersistenceInit []) prior
  obtain ⟨fuel', replayed, ended', created⟩ := recover_bareSet off
    (kvsPersistenceInit []) (freshSession (fun _ => default))
  have same := rebuilds fuel (Transfer.whole bareSet) bareSet
    (kvsPersistenceInit []) _ Transfer.whole_carries
    (tcpSendfileRecvThread_bareSet ended) rfl fuel' (kvsPersistenceInit [])
    (freshSession (fun _ => default)) replayed rfl ended' table
  rw [kept, created] at same
  rw [List.eq_nil_iff_forall_not_mem]
  intro entry member
  obtain ⟨time, there⟩ :=
    (same.2 entry.key entry.value).mp ⟨entry.expireTime, member⟩
  change _ ∈ Tables.create.entries table at there
  rw [entries_create] at there
  exact absurd there List.not_mem_nil

/--
The tables of the slave are rebuilt from every file of the master exactly when
there was nothing in them: `tcp_sendfile_recv_thread` never empties them.
-/
theorem fullSync_rebuilds_iff {flags : Flags}
    (off : flags.enableTtl = false) {prior : Session Store}
    (valid : Valid prior.globals.store.tables) :
    Rebuilds flags prior ↔
      ∀ table, prior.globals.store.tables.entries table = [] :=
  ⟨fun rebuilds => rebuilds.entries_eq_nil off, rebuilds_of_empty off valid⟩

/-- A slave without a file and a snapshot of its own is rebuilt. -/
theorem fullSync_rebuilds_fresh :
    Rebuilds plainFlags (freshSession (fun _ => default)) :=
  (fullSync_rebuilds_iff rfl valid_create).mpr entries_create

/-- A slave that recovered one key of its own. -/
def staleSession : Session Store :=
  replayCommand (commandLayer plainFlags)
    (respEncode [ascii "SET", ascii "k", ascii "v"]) 0
    (respEncode [ascii "SET", ascii "k", ascii "v"]).length
    (freshSession (fun _ => default))

/-- The key of the slave survives a full synchronisation with a master that
never had it. -/
theorem fullSync_keeps_stale_key : ¬ Rebuilds plainFlags staleSession := by
  intro rebuilds
  have none := rebuilds.entries_eq_nil rfl .array
  have one : (staleSession.globals.store.tables.entries .array).length =
      1 := by decide +kernel
  rw [none] at one
  cases one

end Kivo.Repl.FullSync
