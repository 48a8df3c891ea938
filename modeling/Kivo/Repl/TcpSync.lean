import Kivo.Persistence.Log

/-!
# Replication over TCP

A slave asks for the log with `SYNC`.  The master sends the append-only file
as it is on disk, and from then on queues every logged frame for the slave in
a ring that a coroutine drains.  This module follows the master through any
order of client writes, buffer swaps, completions, the `SYNC` command and
sends, and compares what the slave has received with what the master has
logged.

The file on disk lags behind the log by the bytes that are still in one of
the two memory buffers.  They are neither in the file that `SYNC` sends nor in
the ring, so the comparison holds in the runs in which `SYNC` finds nothing
pending.
-/

namespace Kivo.Repl.TcpSync

open Kivo.Clib.Memory
open Kivo.Clib.Ring
open Kivo.Resp.Frame
open Kivo.Server.State
open Kivo.Persistence.Log

/-! ## The file transfer -/

/-- The result of one `sendfile` call. -/
inductive SendfileResult where
  | sent (count : Nat)
  | again
  | failed
deriving DecidableEq, Repr

/--
The `sendfile` loop of `repl_sync_log_via_tcp`: the bytes sent and whether the
loop reached the end of the file; `none` says that it has not ended yet.
-/
def sendfileLoop (file : Bytes) :
    List SendfileResult → Nat → Nat → Option (Bytes × Bool)
  | [], _, remaining => if remaining = 0 then some ([], true) else none
  | result :: results, offset, remaining =>
      if remaining = 0 then some ([], true)
      else
        match result with
        | .again => sendfileLoop file results offset remaining
        | .failed => some ([], false)
        | .sent count =>
            let sent := min count remaining
            if sent = 0 then some ([], false)
            else
              (sendfileLoop file results (offset + sent)
                (remaining - sent)).map
                (fun rest =>
                  ((file.drop offset).take sent ++ rest.1, rest.2))

/-- A transfer that ended well sent every byte once and in order. -/
theorem sendfileLoop_complete {file body : Bytes}
    {results : List SendfileResult} {offset remaining : Nat}
    (ended : sendfileLoop file results offset remaining =
      some (body, true)) :
    body = (file.drop offset).take remaining := by
  induction results generalizing offset remaining body with
  | nil =>
      simp only [sendfileLoop] at ended
      split_ifs at ended with zero
      cases ended
      simp [zero]
  | cons result results induction =>
      unfold sendfileLoop at ended
      split_ifs at ended with zero
      · cases ended
        simp [zero]
      · cases result with
        | again => exact induction ended
        | failed => cases ended
        | sent count =>
            dsimp only at ended
            split_ifs at ended with stuck
            · cases ended
            · obtain ⟨⟨rest, done⟩, loop, shape⟩ :=
                Option.map_eq_some_iff.mp ended
              cases shape
              rw [induction loop, ← List.drop_drop, ← List.take_add]
              congr 1
              omega

/-- `repl_sync_log_via_tcp`: the announced size, the body and the outcome. -/
def replSyncLogViaTcp (results : List SendfileResult) (slaveFd : Int)
    (file : Bytes) : Option (Option Nat × Bytes × Bool) :=
  if slaveFd < 0 then some (none, [], false)
  else if file.length = 0 then some (some 0, [], true)
  else
    (sendfileLoop file results 0 file.length).map
      (fun transfer => (some file.length, transfer))

theorem replSyncLogViaTcp_complete {results : List SendfileResult}
    {slaveFd : Int} {file body : Bytes} {announced : Option Nat}
    (ended : replSyncLogViaTcp results slaveFd file =
      some (announced, body, true)) :
    body = file := by
  rw [replSyncLogViaTcp] at ended
  split_ifs at ended with missing empty
  · cases ended
  · cases ended
    exact (List.eq_nil_of_length_eq_zero empty).symm
  · obtain ⟨transfer, loop, shape⟩ := Option.map_eq_some_iff.mp ended
    cases shape
    rw [sendfileLoop_complete loop, List.drop_zero, List.take_length]

/-! ## Draining the backlog -/

/-- The result of one `send` call. -/
inductive SendResult where
  | sent (count : Nat)
  | again
  | failed
deriving DecidableEq, Repr

/-- The oldest frame of the ring was sent completely. -/
def popFrame (repl : ReplState) : ReplState :=
  { repl with
    head := (repl.head + 1) % replBacklogMax
    count := repl.count - 1 }

/-- The oldest frame of the ring was sent up to `sent` bytes. -/
def trimFrame (repl : ReplState) (sent : Nat) : ReplState :=
  { repl with
    slots := setSlot repl.slots repl.head ((repl.slots repl.head).drop sent) }

/--
The inner loop of `ntyco_master_repl_send_co` with the results of its `send`
calls; `budget` is what is left of `max_per_loop`.  Second component: the
bytes that went to the slave.
-/
def replSendLoop : List SendResult → Nat → ReplState → ReplState × Bytes
  | [], _, repl => (repl, [])
  | result :: results, budget, repl =>
      if 0 < repl.count ∧ 0 < budget then
        let node := repl.slots repl.head
        match result with
        | .again => (repl, [])
        | .failed => ({ repl with slaveFd := -1 }, [])
        | .sent count =>
            let sent := min count node.length
            if sent = 0 then replSendLoop results budget repl
            else if sent = node.length then
              let rest := replSendLoop results (budget - 1) (popFrame repl)
              (rest.1, node ++ rest.2)
            else (trimFrame repl sent, node.take sent)
      else (repl, [])

/-- One pass of `ntyco_master_repl_send_co`. -/
def ntycoMasterReplSend (results : List SendResult) (repl : ReplState) :
    ReplState × Bytes :=
  if 0 < repl.slaveFd ∧ 0 < repl.count then replSendLoop results 100 repl
  else (repl, [])

theorem BacklogOk.popFrame {repl : ReplState} (ok : BacklogOk repl)
    (some : 0 < repl.count) :
    BacklogOk (popFrame repl) ∧
      repl.backlog = repl.slots repl.head :: (popFrame repl).backlog := by
  obtain ⟨rest, shape⟩ : ∃ rest, repl.count = rest + 1 :=
    ⟨repl.count - 1, by omega⟩
  have limit := ok.count
  refine ⟨⟨?_, ?_, ?_⟩, ?_⟩
  · simp only [TcpSync.popFrame]
    omega
  · exact Nat.mod_lt _ (by decide)
  · simp only [TcpSync.popFrame]
    rw [ok.tail, Nat.mod_add_mod]
    congr 1
    omega
  · simp only [ReplState.backlog, TcpSync.popFrame]
    rw [shape, Nat.add_sub_cancel]
    exact ringContents_succ repl.slots ok.head

theorem BacklogOk.trimFrame {repl : ReplState} (ok : BacklogOk repl)
    (some : 0 < repl.count) (sent : Nat) :
    BacklogOk (trimFrame repl sent) ∧
      (trimFrame repl sent).backlog =
        (repl.slots repl.head).drop sent ::
          (TcpSync.popFrame repl).backlog := by
  obtain ⟨rest, shape⟩ : ∃ rest, repl.count = rest + 1 :=
    ⟨repl.count - 1, by omega⟩
  have limit := ok.count
  refine ⟨⟨ok.count, ok.head, ok.tail⟩, ?_⟩
  simp only [ReplState.backlog, TcpSync.trimFrame, TcpSync.popFrame]
  rw [shape, Nat.add_sub_cancel]
  exact ringContents_setHead repl.slots _ ok.head (by omega)

/-- What a pass over the backlog does to the flags and the bytes. -/
structure Drains (before after : ReplState) (sent : Bytes) : Prop where
  ok : BacklogOk after
  bytes : sent ++ after.backlog.flatten = before.backlog.flatten
  syncFileDone : after.syncFileDone = before.syncFileDone
  backlogEnabled : after.backlogEnabled = before.backlogEnabled
  slaveFd : after.slaveFd = before.slaveFd ∨ after.slaveFd = -1

/-- Sends move bytes from the front of the backlog to the slave. -/
theorem replSendLoop_drains {results : List SendResult} {budget : Nat}
    {repl : ReplState} (ok : BacklogOk repl) :
    Drains repl (replSendLoop results budget repl).1
      (replSendLoop results budget repl).2 := by
  induction results generalizing budget repl with
  | nil => exact ⟨ok, rfl, rfl, rfl, Or.inl rfl⟩
  | cons result results induction =>
      rw [replSendLoop]
      split_ifs with more
      · cases result with
        | again => exact ⟨ok, rfl, rfl, rfl, Or.inl rfl⟩
        | failed =>
            exact ⟨⟨ok.count, ok.head, ok.tail⟩, rfl, rfl, rfl, Or.inr rfl⟩
        | sent count =>
            dsimp only
            split_ifs with stuck full
            · exact induction ok
            · obtain ⟨popOk, backlog⟩ := BacklogOk.popFrame ok more.1
              have rest : Drains (popFrame repl)
                  (replSendLoop results (budget - 1) (popFrame repl)).1
                  (replSendLoop results (budget - 1) (popFrame repl)).2 :=
                induction popOk
              obtain ⟨restOk, bytes, done, enabled, fd⟩ := rest
              refine ⟨restOk, ?_, done, enabled, fd⟩
              rw [backlog, List.append_assoc, bytes, List.flatten_cons]
            · obtain ⟨trimOk, trimmed⟩ := BacklogOk.trimFrame ok more.1
                (min count (repl.slots repl.head).length)
              obtain ⟨-, backlog⟩ := BacklogOk.popFrame ok more.1
              refine ⟨trimOk, ?_, rfl, rfl, Or.inl rfl⟩
              rw [trimmed, backlog, List.flatten_cons, List.flatten_cons,
                ← List.append_assoc, List.take_append_drop]
      · exact ⟨ok, rfl, rfl, rfl, Or.inl rfl⟩

theorem ntycoMasterReplSend_drains (results : List SendResult)
    {repl : ReplState} (ok : BacklogOk repl) :
    Drains repl (ntycoMasterReplSend results repl).1
      (ntycoMasterReplSend results repl).2 := by
  rw [ntycoMasterReplSend]
  split_ifs
  · exact replSendLoop_drains ok
  · exact ⟨ok, rfl, rfl, rfl, Or.inl rfl⟩

/-! ## The master -/

/--
A master with one slave: the log, the replication globals, the bytes logged
since the start-up (behind the file of the start-up) and the bytes the slave
has received.
-/
structure Master where
  aof : Aof
  repl : ReplState
  logged : Bytes
  received : Bytes

/-- The master after start-up over a file. -/
def Master.initial (file : Bytes) : Master :=
  { aof := kvsPersistenceInit file
    repl := ReplState.initial
    logged := file
    received := [] }

/-- What can happen to a master. -/
inductive MasterEvent where
  | clientWrite (lucks : List Luck) (frame : Bytes)
  | aof (event : AofEvent)
  | sync (fd : Int) (results : List SendfileResult)
  | syncDone
  | replSend (results : List SendResult)
deriving DecidableEq, Repr

/-- The backlog switches of `cmd_sys_sync`, with the descriptor the protocol
layer has just noted. -/
def cmdSysSync (fd : Int) (repl : ReplState) : ReplState :=
  { repl with slaveFd := fd, backlogEnabled := true, count := 0 }

/-- `cmd_sys_sync_done`. -/
def cmdSysSyncDone (repl : ReplState) : ReplState :=
  { repl with syncFileDone := true, backlogEnabled := false }

/-- One event; `none` says that a call has not returned yet. -/
def Master.step (flags : Flags) (event : MasterEvent) (m : Master) :
    Option Master :=
  match event with
  | .clientWrite lucks frame =>
      (kvsPersistenceWrite lucks frame m.aof).map
        (fun aof =>
          { m with
            aof := aof
            repl := m.repl.queue flags frame
            logged := m.logged ++ frame })
  | .aof event => (m.aof.step event).map (fun aof => { m with aof := aof })
  | .sync fd results =>
      let repl := cmdSysSync fd m.repl
      (replSyncLogViaTcp results repl.slaveFd m.aof.file).map
        (fun transfer =>
          { m with repl := repl, received := m.received ++ transfer.2.1 })
  | .syncDone => some { m with repl := cmdSysSyncDone m.repl }
  | .replSend results =>
      let pass := ntycoMasterReplSend results m.repl
      some { m with repl := pass.1, received := m.received ++ pass.2 }

/-- The masters of a run, with the number of `SYNC` commands handled. -/
inductive Reaches (flags : Flags) (file : Bytes)
    (allowed : Master → Nat → MasterEvent → Prop) :
    Master → Nat → Prop where
  | start : Reaches flags file allowed (Master.initial file) 0
  | step {m next : Master} {syncs : Nat} {event : MasterEvent}
      (before : Reaches flags file allowed m syncs)
      (permitted : allowed m syncs event)
      (taken : m.step flags event = some next) :
      Reaches flags file allowed next
        (syncs + match event with | .sync _ _ => 1 | _ => 0)

/-! ## What the slave has received -/

/--
The runs in question: the log accepts every frame, the ring never overflows,
there is one `SYNC`, on a valid descriptor, and its transfer completes.
-/
def Premises (flags : Flags) (m : Master) (syncs : Nat) :
    MasterEvent → Prop
  | .clientWrite _ frame =>
      frame.length ≤ aofBufSize ∧
        (m.repl.accepts flags = true → m.repl.count < replBacklogMax)
  | .aof event => event.written = []
  | .sync fd results =>
      syncs = 0 ∧ 0 < fd ∧
        ∃ announced body,
          replSyncLogViaTcp results fd m.aof.file =
            some (announced, body, true)
  | .syncDone => True
  | .replSend _ => True

/-- `SYNC` finds every logged byte in the file. -/
def SyncFindsLogFlushed (m : Master) : MasterEvent → Prop
  | .sync _ _ => m.aof.active = [] ∧ m.aof.submitted = none
  | _ => True

/-- The invariant of the runs in which `SYNC` finds the log flushed. -/
structure MasterInv (flags : Flags) (m : Master) (syncs : Nat) : Prop where
  ring : RingOk m.aof
  opened : m.aof.fd = .append
  log : m.aof.logged = m.logged
  backlog : BacklogOk m.repl
  received : m.received <+: m.logged
  unsynced : syncs = 0 →
    m.received = [] ∧ m.repl.slaveFd < 0 ∧ m.repl.count = 0
  connected : 0 < m.repl.slaveFd →
    m.repl.accepts flags = true ∧
      m.received ++ m.repl.backlog.flatten = m.logged

theorem masterInv_initial (flags : Flags) (file : Bytes) :
    MasterInv flags (Master.initial file) 0 where
  ring := ringOk_init file
  opened := rfl
  log := by simp [Master.initial, kvsPersistenceInit, Aof.logged, Aof.pending]
  backlog := backlogOk_initial
  received := List.nil_prefix
  unsynced := fun _ => ⟨rfl, show (-1 : Int) < 0 by decide, rfl⟩
  connected := fun connected => by cases connected

section Steps

variable {flags : Flags} {m next : Master} {syncs : Nat}

theorem accepts_of_connected {repl other : ReplState}
    (accepts : repl.accepts flags = true)
    (fd : other.slaveFd = repl.slaveFd)
    (done : other.syncFileDone = repl.syncFileDone)
    (enabled : other.backlogEnabled = repl.backlogEnabled) :
    other.accepts flags = true := by
  rw [ReplState.accepts, fd, done, enabled]
  exact accepts

theorem step_clientWrite {lucks : List Luck} {frame : Bytes}
    (inv : MasterInv flags m syncs)
    (premises : Premises flags m syncs (.clientWrite lucks frame))
    (taken : m.step flags (.clientWrite lucks frame) = some next) :
    MasterInv flags next syncs := by
  obtain ⟨aof, written, rfl⟩ := Option.map_eq_some_iff.mp taken
  obtain ⟨ring, logged, fd⟩ := kvsPersistenceWrite_logged inv.ring
    (by rw [inv.opened]; decide) premises.1 written
  have received : m.received <+: m.logged ++ frame :=
    inv.received.trans (List.prefix_append _ _)
  have log : aof.logged = m.logged ++ frame := by rw [logged, inv.log]
  cases accepting : m.repl.accepts flags with
  | false =>
      have same : m.repl.queue flags frame = m.repl := by
        rw [ReplState.queue, accepting]
        rfl
      refine ⟨ring, fd.trans inv.opened, log, ?_, received, ?_, ?_⟩
      · rw [same]
        exact inv.backlog
      · rw [same]
        exact inv.unsynced
      · rw [same]
        intro connected
        rw [(inv.connected connected).1] at accepting
        cases accepting
  | true =>
      have queued : m.repl.queue flags frame = m.repl.push frame := by
        rw [ReplState.queue, accepting]
        rfl
      have room := premises.2 accepting
      obtain ⟨backlogOk, backlog⟩ := inv.backlog.push room frame
      have online : 0 < m.repl.slaveFd := by
        simp only [ReplState.accepts, Bool.and_eq_true,
          decide_eq_true_eq] at accepting
        exact accepting.1.1
      refine ⟨ring, fd.trans inv.opened, log, ?_, received, ?_, ?_⟩
      · rw [queued]
        exact backlogOk
      · intro none
        have offline := (inv.unsynced none).2.1
        omega
      · intro _
        obtain ⟨-, bytes⟩ := inv.connected online
        refine ⟨?_, ?_⟩
        · rw [queued, ReplState.push, if_pos room]
          exact accepting
        · rw [queued, backlog]
          simp only [List.flatten_append, List.flatten_cons,
            List.flatten_nil, List.append_nil]
          rw [← List.append_assoc, bytes]

theorem step_aof {event : AofEvent} (inv : MasterInv flags m syncs)
    (premises : Premises flags m syncs (.aof event))
    (taken : m.step flags (.aof event) = some next) :
    MasterInv flags next syncs := by
  obtain ⟨aof, stepped, rfl⟩ := Option.map_eq_some_iff.mp taken
  have silent : event.written = [] := premises
  obtain ⟨ring, logged, fd⟩ := step_logged inv.ring
    (by rw [inv.opened]; decide) (by simp [silent]) stepped
  rw [silent, List.flatten_nil, List.append_nil, inv.log] at logged
  exact ⟨ring, fd.trans inv.opened, logged, inv.backlog, inv.received,
    inv.unsynced, inv.connected⟩

theorem step_sync {fd : Int} {results : List SendfileResult}
    (master : flags.enableReplMaster = true)
    (inv : MasterInv flags m syncs)
    (premises : Premises flags m syncs (.sync fd results))
    (flushed : SyncFindsLogFlushed m (.sync fd results))
    (taken : m.step flags (.sync fd results) = some next) :
    MasterInv flags next (syncs + 1) := by
  obtain ⟨first, valid, announced, body, transfer⟩ := premises
  obtain ⟨none, -, empty⟩ := inv.unsynced first
  obtain ⟨outcome, sent, rfl⟩ := Option.map_eq_some_iff.mp taken
  have same : outcome = (announced, body, true) := by
    rw [show (cmdSysSync fd m.repl).slaveFd = fd from rfl, transfer] at sent
    exact (Option.some.inj sent).symm
  have whole : m.received ++ outcome.2.1 = m.logged := by
    rw [same, none, List.nil_append, replSyncLogViaTcp_complete transfer,
      ← inv.log]
    simp [Aof.logged, Aof.pending, flushed.1, flushed.2]
  refine ⟨inv.ring, inv.opened, inv.log, ?_, ?_, ?_, ?_⟩
  · refine ⟨Nat.zero_le _, inv.backlog.head, ?_⟩
    have tail := inv.backlog.tail
    rw [empty] at tail
    exact tail
  · exact ⟨[], by rw [List.append_nil]; exact whole⟩
  · intro never
    omega
  · intro _
    refine ⟨?_, ?_⟩
    · simp [ReplState.accepts, cmdSysSync, valid, master]
    · have nothing : (cmdSysSync fd m.repl).backlog = [] := rfl
      dsimp only
      rw [nothing, List.flatten_nil, List.append_nil, whole]

theorem step_syncDone (master : flags.enableReplMaster = true)
    (tcp : flags.useTcpSync = true) (inv : MasterInv flags m syncs)
    (taken : m.step flags .syncDone = some next) :
    MasterInv flags next syncs := by
  cases taken
  refine ⟨inv.ring, inv.opened, inv.log,
    ⟨inv.backlog.count, inv.backlog.head, inv.backlog.tail⟩, inv.received,
    inv.unsynced, ?_⟩
  intro connected
  refine ⟨?_, (inv.connected connected).2⟩
  have online : 0 < m.repl.slaveFd := connected
  simp [ReplState.accepts, cmdSysSyncDone, online, master, tcp]

theorem step_replSend {results : List SendResult}
    (inv : MasterInv flags m syncs)
    (taken : m.step flags (.replSend results) = some next) :
    MasterInv flags next syncs := by
  cases taken
  by_cases online : 0 < m.repl.slaveFd ∧ 0 < m.repl.count
  · obtain ⟨ok, bytes, done, enabled, fd⟩ :=
      ntycoMasterReplSend_drains results inv.backlog
    obtain ⟨accepts, whole⟩ := inv.connected online.1
    rw [← bytes, ← List.append_assoc] at whole
    refine ⟨inv.ring, inv.opened, inv.log, ok, ?_, ?_, ?_⟩
    · exact ⟨_, whole⟩
    · intro none
      have offline := (inv.unsynced none).2.1
      omega
    · intro connected
      refine ⟨?_, whole⟩
      rcases fd with same | lost
      · exact accepts_of_connected accepts same done enabled
      · dsimp only at connected
        rw [lost] at connected
        omega
  · have idle : ntycoMasterReplSend results m.repl = (m.repl, []) := by
      rw [ntycoMasterReplSend, if_neg online]
    simp only [idle, List.append_nil]
    exact inv

end Steps

/--
In every run in which `SYNC` finds the log flushed, what the slave has
received is at every moment a prefix of what the master has logged.
-/
theorem slave_receives_prefix
    (flags : Flags) (master : flags.enableReplMaster = true)
    (tcp : flags.useTcpSync = true) (file : Bytes)
    (m : Master) (syncs : Nat)
    (reached : Reaches flags file
      (fun m syncs event =>
        Premises flags m syncs event ∧ SyncFindsLogFlushed m event) m syncs) :
    m.received <+: m.logged := by
  have inv : MasterInv flags m syncs := by
    induction reached with
    | start => exact masterInv_initial flags file
    | @step m next syncs event before permitted taken induction =>
        cases event with
        | clientWrite lucks frame =>
            exact step_clientWrite induction permitted.1 taken
        | aof event => exact step_aof induction permitted.1 taken
        | sync fd results =>
            exact step_sync master induction permitted.1 permitted.2 taken
        | syncDone => exact step_syncDone master tcp induction taken
        | replSend results => exact step_replSend induction taken
  exact inv.received

/-- The flags of a master that replicates over TCP. -/
def tcpMaster : Flags :=
  { enablePersistence := true
    enableTtl := false
    enableReplMaster := true
    enableReplSlave := false
    useTcpSync := true }

/-- A logged command. -/
def setFrame (value : String) : Bytes :=
  respEncode [ascii "SET", ascii "k", ascii value]

/-- A write that is on disk before `SYNC`, and one that follows it. -/
theorem slave_receives_prefix_flushed :
    ∃ m syncs,
      Reaches tcpMaster []
          (fun m syncs event =>
            Premises tcpMaster m syncs event ∧ SyncFindsLogFlushed m event)
          m syncs ∧
        m.received = setFrame "A" ++ setFrame "B" ∧
        m.received <+: m.logged := by
  let allowed : Master → Nat → MasterEvent → Prop := fun m syncs event =>
    Premises tcpMaster m syncs event ∧ SyncFindsLogFlushed m event
  have written : Reaches tcpMaster [] allowed _ _ :=
    Reaches.step Reaches.start
      (show allowed _ _ (.clientWrite [] (setFrame "A")) from
        ⟨⟨by decide, fun _ => by decide⟩, trivial⟩) rfl
  have submitted : Reaches tcpMaster [] allowed _ _ :=
    Reaches.step written
      (show allowed _ _ (.aof (.forceFlush true true 0)) from
        ⟨rfl, trivial⟩) rfl
  have stored : Reaches tcpMaster [] allowed _ _ :=
    Reaches.step submitted
      (show allowed _ _ (.aof .kernel) from ⟨rfl, trivial⟩) rfl
  have synced : Reaches tcpMaster [] allowed _ _ :=
    Reaches.step stored
      (show allowed _ _ (.sync 7 [.sent 27]) from
        ⟨⟨rfl, by decide, some 27, setFrame "A", rfl⟩, rfl, rfl⟩) rfl
  have queued : Reaches tcpMaster [] allowed _ _ :=
    Reaches.step synced
      (show allowed _ _ (.clientWrite [] (setFrame "B")) from
        ⟨⟨by decide, fun _ => by decide⟩, trivial⟩) rfl
  have sent : Reaches tcpMaster [] allowed _ _ :=
    Reaches.step queued
      (show allowed _ _ (.replSend [.sent 27]) from ⟨trivial, trivial⟩) rfl
  exact ⟨_, _, sent, rfl,
    slave_receives_prefix tcpMaster rfl rfl [] _ _ sent⟩

/--
A write that is still in the memory buffer when `SYNC` arrives is neither in
the file nor in the backlog: the slave receives only the write that follows.
-/
theorem slave_misses_buffered_write :
    ∃ m syncs,
      Reaches tcpMaster [] (Premises tcpMaster) m syncs ∧
        m.logged = setFrame "A" ++ setFrame "B" ∧
        m.received = setFrame "B" ∧
        ¬ m.received <+: m.logged := by
  have written : Reaches tcpMaster [] (Premises tcpMaster) _ _ :=
    Reaches.step Reaches.start
      (show Premises tcpMaster _ _ (.clientWrite [] (setFrame "A")) from
        ⟨by decide, fun _ => by decide⟩) rfl
  have synced : Reaches tcpMaster [] (Premises tcpMaster) _ _ :=
    Reaches.step written
      (show Premises tcpMaster _ _ (.sync 7 []) from
        ⟨rfl, by decide, some 0, [], rfl⟩) rfl
  have queued : Reaches tcpMaster [] (Premises tcpMaster) _ _ :=
    Reaches.step synced
      (show Premises tcpMaster _ _ (.clientWrite [] (setFrame "B")) from
        ⟨by decide, fun _ => by decide⟩) rfl
  have sent : Reaches tcpMaster [] (Premises tcpMaster) _ _ :=
    Reaches.step queued
      (show Premises tcpMaster _ _ (.replSend [.sent 27]) from trivial) rfl
  exact ⟨_, _, sent, rfl, rfl, by decide⟩

end Kivo.Repl.TcpSync
