import Kivo.Repl.TcpSync
import Kivo.Server.ActiveExpiry

/-!
# The ring of the backlog

The frames that still have to reach the slave stand in a ring with three
indices.  Four places move them: the two that queue a frame, the coroutine that
sends, and `cmd_sys_sync`, which empties the ring by its count alone.

Beside the ring this module keeps the frames that have been queued and neither
sent completely nor discarded, in the order in which they came.  The ring holds
exactly these as long as every `SYNC` finds it empty or full: in between, the
tail stays ahead of the head by the frames that were discarded.
-/

namespace Kivo.Repl.Backlog

open Kivo.Clib.Memory
open Kivo.Clib.Ring
open Kivo.Clib.Simulation
open Kivo.Resp.Frame
open Kivo.Resp.Stream
open Kivo.Server.State
open Kivo.Server.Expire
open Kivo.Server.Commands
open Kivo.Server.CommandTable
open Kivo.Server.ActiveExpiry
open Kivo.Repl.TcpSync (SendResult popFrame trimFrame replSendLoop
  ntycoMasterReplSend)

/-! ## Events -/

/-- What can happen to the replication globals. -/
inductive BacklogEvent where
  | slave (fd : Int)
  | frame (bytes : Bytes)
  | send (results : List SendResult)
  | sync
  | syncDone
deriving DecidableEq, Repr

/-- The code behind an event. -/
def ReplState.handle (flags : Flags) (repl : ReplState) :
    BacklogEvent → ReplState
  | .slave fd => { repl with slaveFd := fd }
  | .frame bytes => repl.queue flags bytes
  | .send results => (ntycoMasterReplSend results repl).1
  | .sync => { repl with backlogEnabled := true, count := 0 }
  | .syncDone => TcpSync.cmdSysSyncDone repl

/-- The events of a command that `protocol_process_stream` executes. -/
def commandEvents (flags : Flags) (fd : Int) (mem : Bytes)
    (cmdRawPtr singleCmdLen : Int) : List BacklogEvent :=
  let req := respUnpackNoModify mem cmdRawPtr singleCmdLen
  let isRdma := requestIs mem req (ascii "RDMA_CONNECT")
  let name := req.argv.getD 0 0
  let nameLen := req.argvLen.getD 0 0
  let announced :=
    if flags.enableReplMaster &&
        (isRdma || flags.useTcpSync && requestIs mem req (ascii "SYNC")) then
      [.slave fd]
    else []
  if requestIs mem req (ascii "PING") || flags.enableReplMaster && isRdma then
    announced
  else
    let queued :=
      if decide (0 < req.argc) && isWriteCommand mem name nameLen then
        [.frame (slice mem cmdRawPtr singleCmdLen)]
      else []
    let handled :=
      match if 0 < req.argc then lookupCommand mem name nameLen else none with
      | some ⟨_, .sysSync⟩ => [.sync]
      | some ⟨_, .sysSyncDone⟩ => [.syncDone]
      | _ => []
    announced ++ queued ++ handled

theorem noteSlave_handle (flags : Flags) (mem : Bytes) (req : RespRequest)
    (fd : Int) (repl : ReplState) :
    noteSlave flags mem req fd repl =
      (if flags.enableReplMaster &&
          (requestIs mem req (ascii "RDMA_CONNECT") ||
            flags.useTcpSync && requestIs mem req (ascii "SYNC")) then
        [BacklogEvent.slave fd]
      else []).foldl (ReplState.handle flags) repl := by
  rw [noteSlave]
  cases flags.enableReplMaster with
  | false => rfl
  | true =>
      cases requestIs mem req (ascii "RDMA_CONNECT") with
      | true => rfl
      | false =>
          cases flags.useTcpSync && requestIs mem req (ascii "SYNC") <;> rfl

theorem kvsExecuteBatch_repl (flags : Flags) (globals : Globals Store)
    (mem : Bytes) (req : RespRequest) (cmd : Option Command) :
    (kvsExecuteBatch flags globals mem req cmd).1.repl =
      (match cmd with
        | some ⟨_, .sysSync⟩ => [BacklogEvent.sync]
        | some ⟨_, .sysSyncDone⟩ => [BacklogEvent.syncDone]
        | _ => []).foldl (ReplState.handle flags) globals.repl := by
  cases cmd with
  | none => rfl
  | some command =>
      obtain ⟨name, proc⟩ := command
      cases proc <;> rfl

/-- A command changes the replication globals by its events. -/
theorem serveCommand_repl (flags : Flags) (fd : Int) (mem : Bytes)
    (cmdRawPtr singleCmdLen : Int) (session : Session Store) :
    (serveCommand (commandLayer flags) flags fd mem cmdRawPtr singleCmdLen
        session).globals.repl =
      (commandEvents flags fd mem cmdRawPtr singleCmdLen).foldl
        (ReplState.handle flags) session.globals.repl := by
  rw [serveCommand, commandEvents]
  have noted := noteSlave_handle flags mem
    (respUnpackNoModify mem cmdRawPtr singleCmdLen) fd session.globals.repl
  cases ping : requestIs mem (respUnpackNoModify mem cmdRawPtr singleCmdLen)
      (ascii "PING") with
  | true =>
      simp only [if_true, Bool.true_or]
      exact noted
  | false =>
      cases rdma : flags.enableReplMaster &&
          requestIs mem (respUnpackNoModify mem cmdRawPtr singleCmdLen)
            (ascii "RDMA_CONNECT") with
      | true =>
          simp only [Bool.false_eq_true, if_false, if_true, Bool.false_or]
          exact noted
      | false =>
          simp only [Bool.false_eq_true, if_false, Bool.false_or,
            commandLayer, kvsExecuteBatch_repl, List.foldl_append]
          congr 1
          rw [← noted]
          split_ifs <;> rfl

/-- The events of one iteration of `expire_process_deletes`. -/
def expireEvents (globals : Globals Store) : List BacklogEvent :=
  match queuePop globals.store.expire.deleteQueue with
  | none => []
  | some (item, _) =>
      if (engineDelIfExpired globals.store.tables item).2 then
        [.frame (internalDelFrame item.type.delCommand item.key)]
      else []

/-- An internal delete queues its frame. -/
theorem expireProcessOne_repl {flags : Flags} {globals next : Globals Store}
    (taken : expireProcessOne flags globals = some next) :
    next.repl =
      (expireEvents globals).foldl (ReplState.handle flags) globals.repl := by
  rw [expireProcessOne] at taken
  rw [expireEvents]
  cases popped : queuePop globals.store.expire.deleteQueue with
  | none =>
      rw [popped] at taken
      cases taken
  | some answer =>
      rw [popped] at taken
      cases taken
      dsimp only
      split_ifs <;> rfl

/-! ## The frames that are still to be sent -/

/-- A queued frame with the number of its bytes that were sent. -/
structure Pending where
  frame : Bytes
  sent : Nat
deriving DecidableEq, Repr

/-- What is left of a frame. -/
def Pending.rest (entry : Pending) : Bytes :=
  entry.frame.drop entry.sent

/--
The frames that are left after `send` calls with these results: a frame that
was sent to its end leaves, one that was sent in part stays.
-/
def transmit : List SendResult → Nat → List Pending → List Pending
  | [], _, pending => pending
  | result :: results, budget, pending =>
      match pending with
      | [] => []
      | entry :: others =>
          if 0 < budget then
            match result with
            | .again => pending
            | .failed => pending
            | .sent count =>
                let sent := min count entry.rest.length
                if sent = 0 then transmit results budget pending
                else if sent = entry.rest.length then
                  transmit results (budget - 1) others
                else { entry with sent := entry.sent + sent } :: others
          else pending

/-- The replication globals with the frames that are still to be sent. -/
structure Watched where
  repl : ReplState
  pending : List Pending

def Watched.initial : Watched :=
  { repl := ReplState.initial, pending := [] }

/-- What an event does to the frames that are still to be sent. -/
def Watched.remaining (flags : Flags) (watched : Watched) :
    BacklogEvent → List Pending
  | .slave _ => watched.pending
  | .frame bytes =>
      if watched.repl.accepts flags ∧ watched.repl.count < replBacklogMax then
        watched.pending ++ [⟨bytes, 0⟩]
      else watched.pending
  | .send results =>
      if 0 < watched.repl.slaveFd then transmit results 100 watched.pending
      else watched.pending
  | .sync => []
  | .syncDone => watched.pending

/-- One event, in the machine form of the run lemmas. -/
def Watched.step (flags : Flags) (watched : Watched) (event : BacklogEvent) :
    Watched × Unit :=
  ({ repl := ReplState.handle flags watched.repl event
     pending := watched.remaining flags event }, ())

/-- The state after a sequence of events from program start. -/
def watchedAfter (flags : Flags) (events : List BacklogEvent) : Watched :=
  (run (Watched.step flags) Watched.initial events).1

/-- The indices of the ring agree, and its slots from the head on are the
frames that are still to be sent. -/
structure Faithful (watched : Watched) : Prop where
  tail : watched.repl.tail =
    (watched.repl.head + watched.repl.count) % replBacklogMax
  count : watched.repl.count ≤ replBacklogMax
  slots : watched.repl.backlog = watched.pending.map Pending.rest

/-- `SYNC` finds the ring empty or full. -/
def SyncFindsNothing (watched : Watched) (event : BacklogEvent) : Prop :=
  event = .sync →
    watched.repl.count = 0 ∨ watched.repl.count = replBacklogMax

theorem Faithful.backlogOk {watched : Watched} (faithful : Faithful watched)
    (head : watched.repl.head < replBacklogMax) : BacklogOk watched.repl :=
  ⟨faithful.count, head, faithful.tail⟩

theorem backlog_length (repl : ReplState) :
    repl.backlog.length = repl.count :=
  ringContents_length _ _ _ _

section Steps

variable {flags : Flags} {repl : ReplState} {pending : List Pending}

/-- The ring is empty exactly when nothing is left to be sent. -/
theorem pending_cons (slots : repl.backlog = pending.map Pending.rest)
    (more : 0 < repl.count) :
    ∃ entry others, pending = entry :: others := by
  have length : pending.length = repl.count := by
    rw [← backlog_length, slots, List.length_map]
  cases pending with
  | nil => exact absurd length.symm (Nat.ne_of_gt more)
  | cons entry others => exact ⟨entry, others, rfl⟩

/-- A frame is queued behind the others or dropped. -/
theorem queue_faithful (ok : BacklogOk repl)
    (slots : repl.backlog = pending.map Pending.rest) (bytes : Bytes) :
    BacklogOk (repl.queue flags bytes) ∧
      (repl.queue flags bytes).backlog =
        ((Watched.mk repl pending).remaining flags (.frame bytes)).map
          Pending.rest := by
  rw [ReplState.queue, Watched.remaining]
  by_cases accepting : repl.accepts flags = true
  · by_cases room : repl.count < replBacklogMax
    · obtain ⟨pushedOk, pushed⟩ := ok.push room bytes
      rw [if_pos accepting, if_pos ⟨accepting, room⟩]
      refine ⟨pushedOk, ?_⟩
      rw [pushed, slots, List.map_append]
      rfl
    · rw [if_pos accepting, if_neg (fun both => room both.2),
        ReplState.push, if_neg room]
      exact ⟨ok, slots⟩
  · rw [if_neg accepting, if_neg (fun both => accepting both.1)]
    exact ⟨ok, slots⟩

/-- The sends take from the ring what they take from the pending frames. -/
theorem replSendLoop_faithful (results : List SendResult) (budget : Nat)
    (ok : BacklogOk repl) (slots : repl.backlog = pending.map Pending.rest) :
    BacklogOk (replSendLoop results budget repl).1 ∧
      (replSendLoop results budget repl).1.backlog =
        (transmit results budget pending).map Pending.rest := by
  induction results generalizing budget repl pending with
  | nil => exact ⟨ok, slots⟩
  | cons result results induction =>
      by_cases more : 0 < repl.count
      · obtain ⟨entry, others, rfl⟩ := pending_cons slots more
        obtain ⟨popOk, popped⟩ := TcpSync.BacklogOk.popFrame ok more
        rw [popped, List.map_cons, List.cons.injEq] at slots
        obtain ⟨front, back⟩ := slots
        have slots : repl.backlog = (entry :: others).map Pending.rest := by
          rw [popped, front, back, List.map_cons]
        rw [replSendLoop, transmit.eq_def]
        dsimp only
        by_cases left : 0 < budget
        · rw [if_pos ⟨more, left⟩, if_pos left]
          cases result with
          | again => exact ⟨ok, slots⟩
          | failed => exact ⟨⟨ok.count, ok.head, ok.tail⟩, slots⟩
          | sent count =>
              dsimp only
              rw [front]
              split_ifs with stuck full
              · exact induction budget ok slots
              · exact induction (budget - 1) popOk back
              · obtain ⟨trimOk, trimmed⟩ := TcpSync.BacklogOk.trimFrame ok
                  more (min count entry.rest.length)
                refine ⟨trimOk, ?_⟩
                rw [trimmed, front, back, List.map_cons, Pending.rest,
                  Pending.rest, List.drop_drop]
        · rw [if_neg (fun both => left both.2), if_neg left]
          exact ⟨ok, slots⟩
      · have nothing : pending = [] := by
          rw [← List.length_eq_zero_iff, ← List.length_map Pending.rest,
            ← slots, backlog_length]
          omega
        subst nothing
        rw [replSendLoop, if_neg (fun both => more both.1), transmit]
        exact ⟨ok, slots⟩

theorem ntycoMasterReplSend_faithful (results : List SendResult)
    (ok : BacklogOk repl) (slots : repl.backlog = pending.map Pending.rest) :
    BacklogOk (ntycoMasterReplSend results repl).1 ∧
      (ntycoMasterReplSend results repl).1.backlog =
        ((Watched.mk repl pending).remaining flags (.send results)).map
          Pending.rest := by
  rw [ntycoMasterReplSend, Watched.remaining]
  by_cases online : 0 < repl.slaveFd
  · by_cases more : 0 < repl.count
    · rw [if_pos ⟨online, more⟩, if_pos online]
      exact replSendLoop_faithful results 100 ok slots
    · have loop : replSendLoop results 100 repl = (repl, []) := by
        cases results with
        | nil => rfl
        | cons result results =>
            rw [replSendLoop, if_neg (fun both => more both.1)]
      rw [if_neg (fun both => more both.2), if_pos online, ← loop]
      exact replSendLoop_faithful results 100 ok slots
  · rw [if_neg (fun both => online both.1), if_neg online]
    exact ⟨ok, slots⟩

/-- Emptying the ring by its count keeps the indices in agreement exactly when
the ring was empty or full. -/
theorem sync_tail_iff (ok : BacklogOk repl) :
    repl.tail = (repl.head + 0) % replBacklogMax ↔
      repl.count = 0 ∨ repl.count = replBacklogMax := by
  rw [ok.tail]
  constructor
  · intro same
    by_cases full : repl.count = replBacklogMax
    · exact Or.inr full
    · exact Or.inl (offset_injective (Nat.lt_of_le_of_ne ok.count full)
        (by decide) same)
  · rintro (empty | full)
    · rw [empty]
    · rw [full, Nat.add_mod_right, Nat.add_zero]

end Steps

/-- What one event keeps. -/
theorem step_faithful (flags : Flags) (watched : Watched)
    (event : BacklogEvent)
    (holds : Faithful watched ∧ watched.repl.head < replBacklogMax)
    (found : SyncFindsNothing watched event) :
    Faithful (watched.step flags event).1 ∧
      (watched.step flags event).1.repl.head < replBacklogMax := by
  obtain ⟨faithful, head⟩ := holds
  have ok := faithful.backlogOk head
  obtain ⟨repl, pending⟩ := watched
  cases event with
  | slave fd =>
      exact ⟨⟨faithful.tail, faithful.count, faithful.slots⟩, head⟩
  | frame bytes =>
      obtain ⟨after, slots⟩ := queue_faithful ok faithful.slots bytes
      exact ⟨⟨after.tail, after.count, slots⟩, after.head⟩
  | send results =>
      obtain ⟨after, slots⟩ :=
        @ntycoMasterReplSend_faithful flags repl pending results ok
          faithful.slots
      exact ⟨⟨after.tail, after.count, slots⟩, after.head⟩
  | sync =>
      refine ⟨⟨?_, Nat.zero_le _, rfl⟩, head⟩
      exact (sync_tail_iff ok).mpr (found rfl)
  | syncDone =>
      exact ⟨⟨faithful.tail, faithful.count, faithful.slots⟩, head⟩

theorem replSendLoop_head (results : List SendResult) (budget : Nat)
    {repl : ReplState} (head : repl.head < replBacklogMax) :
    (replSendLoop results budget repl).1.head < replBacklogMax := by
  induction results generalizing budget repl with
  | nil => exact head
  | cons result results induction =>
      rw [replSendLoop]
      split_ifs
      · cases result with
        | again => exact head
        | failed => exact head
        | sent count =>
            dsimp only
            split_ifs
            · exact induction budget head
            · exact induction (budget - 1) (Nat.mod_lt _ (by decide))
            · exact head
      · exact head

/-- The head stays inside the ring, whatever happens. -/
theorem step_head (flags : Flags) (watched : Watched)
    (event : BacklogEvent) (head : watched.repl.head < replBacklogMax) :
    (watched.step flags event).1.repl.head < replBacklogMax := by
  cases event with
  | slave fd => exact head
  | frame bytes =>
      simp only [Watched.step, ReplState.handle, ReplState.queue,
        ReplState.push]
      split_ifs <;> exact head
  | send results =>
      simp only [Watched.step, ReplState.handle, ntycoMasterReplSend]
      split_ifs
      · exact replSendLoop_head results 100 head
      · exact head
  | sync => exact head
  | syncDone => exact head

theorem watchedAfter_head (flags : Flags) (events : List BacklogEvent) :
    (watchedAfter flags events).repl.head < replBacklogMax :=
  run_invariant (fun watched event head _ => step_head flags watched event head)
    (show (0 : Nat) < replBacklogMax by decide)
    (along_of_forall (fun _ _ => trivial) Watched.initial)

theorem watchedAfter_snoc (flags : Flags) (events : List BacklogEvent)
    (event : BacklogEvent) :
    watchedAfter flags (events ++ [event]) =
      ((watchedAfter flags events).step flags event).1 := by
  rw [watchedAfter, run_append]
  rfl

/-- A run whose `SYNC`s find the ring empty or full. -/
theorem watchedAfter_faithful {flags : Flags} {events : List BacklogEvent}
    (found : ∀ front, front ++ [.sync] <+: events →
      (watchedAfter flags front).repl.count = 0 ∨
        (watchedAfter flags front).repl.count = replBacklogMax) :
    Faithful (watchedAfter flags events) := by
  have allowed : Along (Watched.step flags) SyncFindsNothing
      Watched.initial events := by
    rw [along_iff_fronts]
    intro earlier event longer reset
    subst reset
    exact found earlier longer
  exact (run_invariant (step_faithful flags)
    ⟨⟨by decide, Nat.zero_le _, rfl⟩, by decide⟩ allowed).1

/--
The ring tells the pending frames in every state of a run exactly when every
`SYNC` of the run finds the ring empty or full.
-/
theorem backlog_faithful_iff (flags : Flags) (events : List BacklogEvent) :
    (∀ front, front <+: events → Faithful (watchedAfter flags front)) ↔
      ∀ front, front ++ [.sync] <+: events →
        (watchedAfter flags front).repl.count = 0 ∨
          (watchedAfter flags front).repl.count = replBacklogMax := by
  constructor
  · intro faithful front synced
    have ok := (faithful front
      ((List.prefix_append _ _).trans synced)).backlogOk
        (watchedAfter_head flags front)
    have after := (faithful _ synced).tail
    rw [watchedAfter_snoc] at after
    exact (sync_tail_iff ok).mp after
  · intro found front inside
    exact watchedAfter_faithful
      (fun earlier longer => found earlier (longer.trans inside))

/-- A slave that asks for the log twice, with a frame in between. -/
def secondSync : List BacklogEvent :=
  [.slave 7, .sync, .frame (ascii "A"), .slave 7, .sync]

/-- The second `SYNC` forgets the frame but not its slot: the ring is empty and
its tail is one ahead of its head. -/
theorem secondSync_drifts :
    (watchedAfter TcpSync.tcpMaster secondSync).repl.count = 0 ∧
      (watchedAfter TcpSync.tcpMaster secondSync).repl.head = 0 ∧
      (watchedAfter TcpSync.tcpMaster secondSync).repl.tail = 1 ∧
      ¬ Faithful (watchedAfter TcpSync.tcpMaster secondSync) := by
  have tail :
      (watchedAfter TcpSync.tcpMaster secondSync).repl.tail = 1 := by
    decide
  refine ⟨by decide, by decide, tail, ?_⟩
  intro faithful
  have agreed := faithful.tail
  rw [tail] at agreed
  revert agreed
  decide

/-! ## Runs of the server -/

/-- The code that moves the ring: a command of a client, one iteration of
`expire_process_deletes`, one round of the sending coroutine. -/
inductive ServerCall where
  | command (fd : Int) (mem : Bytes) (cmdRawPtr singleCmdLen : Int)
  | expire
  | send (results : List SendResult)

/-- One call with the events that it is for the ring. -/
def serverStep (flags : Flags) (session : Session Store) :
    ServerCall → Session Store × List BacklogEvent
  | .command fd mem cmdRawPtr singleCmdLen =>
      (serveCommand (commandLayer flags) flags fd mem cmdRawPtr singleCmdLen
        session, commandEvents flags fd mem cmdRawPtr singleCmdLen)
  | .expire =>
      ({ session with
          globals :=
            (expireProcessOne flags session.globals).getD session.globals },
        expireEvents session.globals)
  | .send results =>
      ({ session with
          globals :=
            { session.globals with
              repl := (ntycoMasterReplSend results session.globals.repl).1 } },
        [.send results])

/-- A call changes the replication globals by its events. -/
theorem serverStep_repl (flags : Flags) (session : Session Store)
    (call : ServerCall) :
    (serverStep flags session call).1.globals.repl =
      (serverStep flags session call).2.foldl (ReplState.handle flags)
        session.globals.repl := by
  cases call with
  | command fd mem cmdRawPtr singleCmdLen =>
      exact serveCommand_repl flags fd mem cmdRawPtr singleCmdLen session
  | send results => rfl
  | expire =>
      rw [serverStep]
      cases taken : expireProcessOne flags session.globals with
      | some next => exact expireProcessOne_repl taken
      | none =>
          have nothing : expireEvents session.globals = [] := by
            rw [expireProcessOne] at taken
            rw [expireEvents]
            cases popped : queuePop
                session.globals.store.expire.deleteQueue with
            | none => rfl
            | some answer =>
                rw [popped] at taken
                cases taken
          rw [nothing]
          rfl

theorem serverRun_repl (flags : Flags) (session : Session Store)
    (calls : List ServerCall) :
    (run (serverStep flags) session calls).1.globals.repl =
      (run (serverStep flags) session calls).2.flatten.foldl
        (ReplState.handle flags) session.globals.repl := by
  induction calls generalizing session with
  | nil => rfl
  | cons call rest induction =>
      rw [run]
      dsimp only
      rw [induction, List.flatten_cons, List.foldl_append, serverStep_repl]

theorem watchedAfter_repl (flags : Flags) (events : List BacklogEvent) :
    (watchedAfter flags events).repl =
      events.foldl (ReplState.handle flags) ReplState.initial := by
  induction events using List.reverseRecOn with
  | nil => rfl
  | append_singleton events event induction =>
      rw [watchedAfter_snoc, List.foldl_append, ← induction]
      rfl

/-- Whatever commands, internal deletes and sends a server has carried out, its
ring holds the frames that are still to be sent, as long as every `SYNC` has
found it empty or full. -/
theorem server_backlog (flags : Flags) {session : Session Store}
    (fresh : session.globals.repl = ReplState.initial)
    (calls : List ServerCall)
    (found : ∀ front,
      front ++ [.sync] <+: (run (serverStep flags) session calls).2.flatten →
        (watchedAfter flags front).repl.count = 0 ∨
          (watchedAfter flags front).repl.count = replBacklogMax) :
    (run (serverStep flags) session calls).1.globals.repl.backlog =
      (watchedAfter flags
        (run (serverStep flags) session calls).2.flatten).pending.map
          Pending.rest := by
  rw [serverRun_repl, fresh, ← watchedAfter_repl]
  exact (watchedAfter_faithful found).slots

end Kivo.Repl.Backlog
