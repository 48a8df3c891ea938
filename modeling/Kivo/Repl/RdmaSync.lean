import Kivo.Clib.Memory
import Kivo.Clib.Simulation

/-!
# Replication over RDMA

`repl_sync_log_via_rdma` sends the append-only file in chunks through one buffer
of the slave, `pure_rdma_repl_slave_thread` writes them to its own file.  A write
puts its payload into that buffer and queues a 32-bit immediate; the other side
waits for the next immediate.  The sizes go through these immediates: first that
of the whole file, then that of each chunk, each of them answered by a `1`.

The two threads and the network take their steps in any order.  The chunks are in
lock step with their answers, so the buffer is always on disk before it is
written again; but the size of the file is cut to 32 bits, and a slave that reads
a smaller size stops while the master waits.
-/

namespace Kivo.Repl.RdmaSync

open Kivo.Clib.Memory
open Kivo.Clib.Simulation
open Relation (ReflTransGen)

/-! ## The two threads -/

/-- `RDMA_CHUNK_SIZE`. -/
def rdmaChunkSize : Nat :=
  32 * 1024 * 1024

/-- Where `repl_sync_log_via_rdma` stands. -/
inductive MasterPc where
  | start
  | headerSent
  | loop (offset : Nat)
  | chunkSent (offset chunkSize : Nat)
  | finished
deriving DecidableEq, Repr

/-- Where `pure_rdma_repl_slave_thread` stands. -/
inductive SlavePc where
  | waiting
  | opening (totalFileSize : Nat)
  | loop (totalFileSize totalReceived : Nat)
  | writing (totalFileSize totalReceived incomingChunkSize : Nat)
  | acking (totalFileSize totalReceived : Nat)
  | finished
  | failed
deriving DecidableEq, Repr

/--
Both threads, the writes on their way in either direction, the immediates that
the slave has not taken yet, its buffer and its file.  Two fields only watch:
`unwritten` says that the buffer has a chunk that is not on disk yet, and
`overwritten` that such a chunk was written over.
-/
structure Config where
  master : MasterPc
  slave : SlavePc
  toSlave : List (Bytes × UInt32)
  arrived : List UInt32
  toMaster : List UInt32
  buffer : Bytes
  file : Bytes
  unwritten : Bool
  overwritten : Bool
deriving DecidableEq, Repr

/-- Before the first step, with whatever the slave has in its buffer and file. -/
def Config.initial (buffer file : Bytes) : Config :=
  { master := .start
    slave := .waiting
    toSlave := []
    arrived := []
    toMaster := []
    buffer := buffer
    file := file
    unwritten := false
    overwritten := false }

/-- The bytes of the next chunk. -/
def chunkAt (log : Bytes) (offset : Nat) : Bytes :=
  (log.drop offset).take rdmaChunkSize

/-- `repl_sync_log_via_rdma`, up to the next call that blocks or writes. -/
def masterStep (log : Bytes) (config : Config) : Option Config :=
  match config.master with
  | .start =>
      some
        { config with
          master := .headerSent
          toSlave := config.toSlave ++ [([], UInt32.ofNat log.length)] }
  | .headerSent =>
      match config.toMaster with
      | [] => none
      | _ :: rest =>
          some
            { config with
              master := if log.length = 0 then .finished else .loop 0
              toMaster := rest }
  | .loop offset =>
      if offset < log.length then
        let chunk := chunkAt log offset
        some
          { config with
            master := .chunkSent offset chunk.length
            toSlave := config.toSlave ++
              [(chunk, UInt32.ofNat chunk.length)] }
      else some { config with master := .finished }
  | .chunkSent offset chunkSize =>
      match config.toMaster with
      | [] => none
      | _ :: rest =>
          some
            { config with
              master := .loop (offset + chunkSize)
              toMaster := rest }
  | .finished => none

/-- A write of the master arrives: the payload in the buffer, the immediate in
the queue. -/
def networkStep (config : Config) : Option Config :=
  match config.toSlave with
  | [] => none
  | (payload, imm) :: rest =>
      some
        { config with
          toSlave := rest
          arrived := config.arrived ++ [imm]
          buffer := payload ++ config.buffer.drop payload.length
          unwritten := config.unwritten || !payload.isEmpty
          overwritten :=
            config.overwritten || (config.unwritten && !payload.isEmpty) }

/-- `pure_rdma_repl_slave_thread`, up to the next call that blocks or writes. -/
def slaveStep (config : Config) : Option Config :=
  match config.slave with
  | .waiting =>
      match config.arrived with
      | [] => none
      | imm :: rest =>
          some { config with slave := .opening imm.toNat, arrived := rest }
  | .opening totalFileSize =>
      some
        { config with
          slave :=
            if totalFileSize = 0 then .finished else .loop totalFileSize 0
          file := []
          toMaster := config.toMaster ++ [1] }
  | .loop totalFileSize totalReceived =>
      if totalReceived < totalFileSize then
        match config.arrived with
        | [] => none
        | imm :: rest =>
            some
              { config with
                slave :=
                  if imm = 0 then .failed
                  else .writing totalFileSize totalReceived imm.toNat
                arrived := rest }
      else some { config with slave := .finished }
  | .writing totalFileSize totalReceived incomingChunkSize =>
      some
        { config with
          slave := .acking totalFileSize (totalReceived + incomingChunkSize)
          file := config.file ++ config.buffer.take incomingChunkSize
          unwritten := false }
  | .acking totalFileSize totalReceived =>
      some
        { config with
          slave := .loop totalFileSize totalReceived
          toMaster := config.toMaster ++ [1] }
  | .finished => none
  | .failed => none

/-- One step of one of them. -/
def Step (log : Bytes) (config next : Config) : Prop :=
  masterStep log config = some next ∨ networkStep config = some next ∨
    slaveStep config = some next

/-- Both sides are done and the files agree. -/
def Synchronised (log : Bytes) (config : Config) : Prop :=
  config.master = .finished ∧ config.slave = .finished ∧ config.file = log

/-- Every run ends with both sides done and the same file, and on the way no
chunk is written over before it is on disk. -/
def Synchronises (log : Bytes) : Prop :=
  ∀ buffer file,
    Inevitably (Step log) (Synchronised log) (Config.initial buffer file) ∧
      ∀ config, ReflTransGen (Step log) (Config.initial buffer file) config →
        config.overwritten = false

/-! ## Every run ends -/

/-- What the master still has to do. -/
def MasterPc.rank (size : Nat) : MasterPc → Nat
  | .start => 10 * size + 12
  | .headerSent => 10 * size + 1
  | .loop offset => 10 * (size - offset) + 1
  | .chunkSent offset chunkSize => 10 * (size - (offset + chunkSize)) + 1
  | .finished => 0

/-- What the slave still has to do with what it has. -/
def SlavePc.rank : SlavePc → Nat
  | .waiting => 1
  | .opening _ => 4
  | .loop _ _ => 1
  | .writing _ _ _ => 4
  | .acking _ _ => 3
  | .finished => 0
  | .failed => 0

/-- A number that every step lowers. -/
def Config.rank (size : Nat) (config : Config) : Nat :=
  config.master.rank size + config.slave.rank + 5 * config.toSlave.length +
    4 * config.arrived.length + config.toMaster.length

theorem chunkAt_length {log : Bytes} {offset : Nat} :
    (chunkAt log offset).length = min rdmaChunkSize (log.length - offset) := by
  rw [chunkAt, List.length_take, List.length_drop]

theorem masterStep_rank {log : Bytes} {config next : Config}
    (stepped : masterStep log config = some next) :
    next.rank log.length < config.rank log.length := by
  rw [masterStep] at stepped
  split at stepped
  case h_1 here =>
    cases stepped
    simp [Config.rank, here, MasterPc.rank]
    omega
  case h_2 here =>
    split at stepped
    · exact nomatch stepped
    · rename_i rest queued
      cases stepped
      simp only [Config.rank, here, queued, MasterPc.rank]
      split_ifs
      · simp
        omega
      · simp
  case h_3 offset here =>
    split_ifs at stepped with left
    · cases stepped
      have length := @chunkAt_length log offset
      simp only [rdmaChunkSize] at length
      simp only [Config.rank, here, MasterPc.rank, List.length_append,
        List.length_singleton]
      omega
    · cases stepped
      simp only [Config.rank, here, MasterPc.rank]
      omega
  case h_4 offset chunkSize here =>
    split at stepped
    · exact nomatch stepped
    · rename_i rest queued
      cases stepped
      simp only [Config.rank, here, queued, MasterPc.rank, List.length_cons]
      omega
  case h_5 here => exact nomatch stepped

theorem networkStep_rank {size : Nat} {config next : Config}
    (stepped : networkStep config = some next) :
    next.rank size < config.rank size := by
  rw [networkStep] at stepped
  split at stepped
  · exact nomatch stepped
  · rename_i queued
    cases stepped
    simp only [Config.rank, queued, List.length_append, List.length_cons,
      List.length_nil]
    omega

theorem slaveStep_rank {size : Nat} {config next : Config}
    (stepped : slaveStep config = some next) :
    next.rank size < config.rank size := by
  rw [slaveStep] at stepped
  split at stepped
  case h_1 here =>
    split at stepped
    · exact nomatch stepped
    · rename_i queued
      cases stepped
      simp only [Config.rank, here, queued, SlavePc.rank, List.length_cons]
      omega
  case h_2 total here =>
    cases stepped
    simp only [Config.rank, here, SlavePc.rank, List.length_append,
      List.length_singleton]
    split_ifs <;> simp only <;> omega
  case h_3 total received here =>
    split_ifs at stepped with more
    · split at stepped
      · exact nomatch stepped
      · rename_i queued
        cases stepped
        simp only [Config.rank, here, queued, SlavePc.rank, List.length_cons]
        split_ifs <;> simp only <;> omega
    · cases stepped
      simp only [Config.rank, here, SlavePc.rank]
      omega
  case h_4 total received chunk here =>
    cases stepped
    simp only [Config.rank, here, SlavePc.rank]
    omega
  case h_5 total received here =>
    cases stepped
    simp only [Config.rank, here, SlavePc.rank, List.length_append,
      List.length_singleton]
    omega
  case h_6 here => exact nomatch stepped
  case h_7 here => exact nomatch stepped

theorem step_rank {log : Bytes} {config next : Config}
    (stepped : Step log config next) :
    next.rank log.length < config.rank log.length := by
  rcases stepped with master | network | slave
  · exact masterStep_rank master
  · exact networkStep_rank network
  · exact slaveStep_rank slave

/-! ## The phases of a transfer -/

/-- The size that the slave reads in the header. -/
def announced (log : Bytes) : Nat :=
  log.length % 2 ^ 32

/-- A position behind a chunk that the slave had a reason to wait for. -/
def Acknowledged (log : Bytes) (offset : Nat) : Prop :=
  offset = 0 ∨ ∃ before, before < announced log ∧ rdmaChunkSize ∣ before ∧
    before < log.length ∧ offset = before + (chunkAt log before).length

/-- The slave is at the head of its loop, or has left it. -/
def Between (total received : Nat) (slave : SlavePc) : Prop :=
  slave = .loop total received ∨ slave = .finished ∧ total ≤ received

/-- What a run can look like from outside: one message is on its way, or one
side has something to do. -/
inductive Phase (log : Bytes) : Config → Prop where
  | start (buffer file : Bytes) :
      Phase log
        { master := .start, slave := .waiting, toSlave := [], arrived := [],
          toMaster := [], buffer := buffer, file := file, unwritten := false,
          overwritten := false }
  | headerSent (buffer file : Bytes) :
      Phase log
        { master := .headerSent, slave := .waiting,
          toSlave := [([], UInt32.ofNat log.length)], arrived := [],
          toMaster := [], buffer := buffer, file := file, unwritten := false,
          overwritten := false }
  | headerArrived (buffer file : Bytes) :
      Phase log
        { master := .headerSent, slave := .waiting, toSlave := [],
          arrived := [UInt32.ofNat log.length], toMaster := [],
          buffer := buffer, file := file, unwritten := false,
          overwritten := false }
  | opening (buffer file : Bytes) :
      Phase log
        { master := .headerSent, slave := .opening (announced log),
          toSlave := [], arrived := [], toMaster := [], buffer := buffer,
          file := file, unwritten := false, overwritten := false }
  | opened (buffer : Bytes) (slave : SlavePc)
      (between : Between (announced log) 0 slave) :
      Phase log
        { master := .headerSent, slave := slave, toSlave := [], arrived := [],
          toMaster := [1], buffer := buffer, file := [], unwritten := false,
          overwritten := false }
  | ready (buffer : Bytes) (offset : Nat) (slave : SlavePc)
      (between : Between (announced log) offset slave)
      (acknowledged : Acknowledged log offset) :
      Phase log
        { master := .loop offset, slave := slave, toSlave := [], arrived := [],
          toMaster := [], buffer := buffer, file := log.take offset,
          unwritten := false, overwritten := false }
  | chunkSent (buffer : Bytes) (offset : Nat) (slave : SlavePc)
      (between : Between (announced log) offset slave)
      (acknowledged : Acknowledged log offset) (more : offset < log.length) :
      Phase log
        { master := .chunkSent offset (chunkAt log offset).length,
          slave := slave,
          toSlave := [(chunkAt log offset,
            UInt32.ofNat (chunkAt log offset).length)],
          arrived := [], toMaster := [], buffer := buffer,
          file := log.take offset, unwritten := false, overwritten := false }
  | chunkArrived (rest : Bytes) (offset : Nat) (slave : SlavePc)
      (between : Between (announced log) offset slave)
      (acknowledged : Acknowledged log offset) (more : offset < log.length) :
      Phase log
        { master := .chunkSent offset (chunkAt log offset).length,
          slave := slave, toSlave := [],
          arrived := [UInt32.ofNat (chunkAt log offset).length],
          toMaster := [], buffer := chunkAt log offset ++ rest,
          file := log.take offset, unwritten := true, overwritten := false }
  | writing (rest : Bytes) (offset : Nat)
      (wanted : offset < announced log)
      (acknowledged : Acknowledged log offset) (more : offset < log.length) :
      Phase log
        { master := .chunkSent offset (chunkAt log offset).length,
          slave := .writing (announced log) offset
            (chunkAt log offset).length,
          toSlave := [], arrived := [], toMaster := [],
          buffer := chunkAt log offset ++ rest, file := log.take offset,
          unwritten := true, overwritten := false }
  | acking (buffer : Bytes) (offset : Nat)
      (wanted : offset < announced log)
      (acknowledged : Acknowledged log offset) (more : offset < log.length) :
      Phase log
        { master := .chunkSent offset (chunkAt log offset).length,
          slave := .acking (announced log)
            (offset + (chunkAt log offset).length),
          toSlave := [], arrived := [], toMaster := [], buffer := buffer,
          file := log.take (offset + (chunkAt log offset).length),
          unwritten := false, overwritten := false }
  | acked (buffer : Bytes) (offset : Nat) (slave : SlavePc)
      (between : Between (announced log)
        (offset + (chunkAt log offset).length) slave)
      (acknowledged : Acknowledged log
        (offset + (chunkAt log offset).length)) :
      Phase log
        { master := .chunkSent offset (chunkAt log offset).length,
          slave := slave, toSlave := [], arrived := [], toMaster := [1],
          buffer := buffer,
          file := log.take (offset + (chunkAt log offset).length),
          unwritten := false, overwritten := false }
  | finished (buffer : Bytes) (offset : Nat) (slave : SlavePc)
      (between : Between (announced log) offset slave)
      (acknowledged : Acknowledged log offset)
      (all : log.length ≤ offset) :
      Phase log
        { master := .finished, slave := slave, toSlave := [], arrived := [],
          toMaster := [], buffer := buffer, file := log.take offset,
          unwritten := false, overwritten := false }

theorem chunkAt_pos {log : Bytes} {offset : Nat} (more : offset < log.length) :
    0 < (chunkAt log offset).length := by
  rw [chunkAt_length, rdmaChunkSize]
  omega

theorem chunkAt_ne_nil {log : Bytes} {offset : Nat}
    (more : offset < log.length) : chunkAt log offset ≠ [] :=
  List.ne_nil_of_length_pos (chunkAt_pos more)

theorem chunkAt_imm (log : Bytes) (offset : Nat) :
    (UInt32.ofNat (chunkAt log offset).length).toNat =
      (chunkAt log offset).length := by
  have length := @chunkAt_length log offset
  simp only [rdmaChunkSize] at length
  rw [UInt32.toNat_ofNat', Nat.mod_eq_of_lt (by omega)]

theorem take_chunkAt (log : Bytes) (offset : Nat) :
    log.take offset ++ chunkAt log offset =
      log.take (offset + (chunkAt log offset).length) := by
  rw [List.take_add, chunkAt_length, chunkAt, ← List.length_drop,
    ← List.take_eq_take_min]

/-- Chunks start at multiples of their size. -/
theorem Acknowledged.dvd {log : Bytes} {offset : Nat}
    (acknowledged : Acknowledged log offset) (more : offset < log.length) :
    rdmaChunkSize ∣ offset := by
  rcases acknowledged with rfl | ⟨before, -, divides, -, rfl⟩
  · exact Nat.dvd_zero _
  · have whole : (chunkAt log before).length = rdmaChunkSize := by
      have length := @chunkAt_length log before
      omega
    rw [whole]
    exact Nat.dvd_add_self_right.mpr divides

/-- The slave at the head of its loop with nothing to take. -/
theorem between_step {config next : Config} {total received : Nat}
    (between : Between total received config.slave)
    (empty : config.arrived = [])
    (stepped : slaveStep config = some next) :
    Between total received next.slave ∧
      next = { config with slave := next.slave } := by
  rcases between with here | ⟨here, -⟩
  · rw [slaveStep, here] at stepped
    simp only [empty] at stepped
    split_ifs at stepped with more
    cases stepped
    exact ⟨Or.inr ⟨rfl, Nat.le_of_not_lt more⟩, by simp only [empty]⟩
  · rw [slaveStep, here] at stepped
    exact nomatch stepped

theorem acknowledged_next {log : Bytes} {offset : Nat}
    (wanted : offset < announced log)
    (acknowledged : Acknowledged log offset) (more : offset < log.length) :
    Acknowledged log (offset + (chunkAt log offset).length) :=
  Or.inr ⟨offset, wanted, acknowledged.dvd more, more, rfl⟩

/-- Every step leads from one phase to another. -/
theorem phase_step {log : Bytes} {config next : Config}
    (phase : Phase log config) (stepped : Step log config next) :
    Phase log next := by
  cases phase with
  | start buffer file =>
      rcases stepped with master | network | slave
      · cases master
        exact .headerSent buffer file
      · exact nomatch network
      · exact nomatch slave
  | headerSent buffer file =>
      rcases stepped with master | network | slave
      · exact nomatch master
      · cases network
        exact .headerArrived buffer file
      · exact nomatch slave
  | headerArrived buffer file =>
      rcases stepped with master | network | slave
      · exact nomatch master
      · exact nomatch network
      · cases slave
        rw [UInt32.toNat_ofNat']
        exact .opening buffer file
  | opening buffer file =>
      rcases stepped with master | network | slave
      · exact nomatch master
      · exact nomatch network
      · cases slave
        refine .opened buffer _ ?_
        split_ifs with nothing
        · exact Or.inr ⟨rfl, nothing.le⟩
        · exact Or.inl rfl
  | opened buffer slave between =>
      rcases stepped with master | network | slave
      · cases master
        split_ifs with nothing
        · exact .finished buffer 0 slave between (Or.inl rfl) nothing.le
        · exact .ready buffer 0 slave between (Or.inl rfl)
      · exact nomatch network
      · obtain ⟨still, same⟩ := between_step between rfl slave
        rw [same]
        exact .opened buffer _ still
  | ready buffer offset slave between acknowledged =>
      rcases stepped with master | network | slave
      · simp only [masterStep] at master
        split_ifs at master with more
        · cases master
          exact .chunkSent buffer offset slave between acknowledged more
        · cases master
          exact .finished buffer offset slave between acknowledged
            (Nat.le_of_not_lt more)
      · exact nomatch network
      · obtain ⟨still, same⟩ := between_step between rfl slave
        rw [same]
        exact .ready buffer offset _ still acknowledged
  | chunkSent buffer offset slave between acknowledged more =>
      rcases stepped with master | network | slave
      · exact nomatch master
      · cases network
        have full : (chunkAt log offset).isEmpty = false :=
          List.isEmpty_eq_false_iff.mpr (chunkAt_ne_nil more)
        simp only [full]
        exact .chunkArrived _ offset slave between acknowledged more
      · obtain ⟨still, same⟩ := between_step between rfl slave
        rw [same]
        exact .chunkSent buffer offset _ still acknowledged more
  | chunkArrived rest offset slave between acknowledged more =>
      rcases stepped with master | network | slave
      · exact nomatch master
      · exact nomatch network
      · rcases between with rfl | ⟨rfl, -⟩
        · have positive := chunkAt_pos more
          have length := chunkAt_imm log offset
          have nonzero : UInt32.ofNat (chunkAt log offset).length ≠ 0 := by
            intro zero
            rw [zero] at length
            exact absurd length (Nat.ne_of_lt positive)
          simp only [slaveStep] at slave
          split_ifs at slave with wanted
          · cases slave
            rw [length]
            exact .writing rest offset wanted acknowledged more
          · cases slave
            exact .chunkArrived rest offset _
              (Or.inr ⟨rfl, Nat.le_of_not_lt wanted⟩) acknowledged more
        · exact nomatch slave
  | writing rest offset wanted acknowledged more =>
      rcases stepped with master | network | slave
      · exact nomatch master
      · exact nomatch network
      · cases slave
        simp only [List.take_left, take_chunkAt]
        exact .acking _ offset wanted acknowledged more
  | acking buffer offset wanted acknowledged more =>
      rcases stepped with master | network | slave
      · exact nomatch master
      · exact nomatch network
      · cases slave
        exact .acked buffer offset _ (Or.inl rfl)
          (acknowledged_next wanted acknowledged more)
  | acked buffer offset slave between acknowledged =>
      rcases stepped with master | network | slave
      · cases master
        exact .ready buffer _ slave between acknowledged
      · exact nomatch network
      · obtain ⟨still, same⟩ := between_step between rfl slave
        rw [same]
        exact .acked buffer offset _ still acknowledged
  | finished buffer offset slave between acknowledged all =>
      rcases stepped with master | network | slave
      · exact nomatch master
      · exact nomatch network
      · obtain ⟨still, same⟩ := between_step between rfl slave
        rw [same]
        exact .finished buffer offset _ still acknowledged all

/-! ## Where a run ends -/

theorem phase_overwritten {log : Bytes} {config : Config}
    (phase : Phase log config) : config.overwritten = false := by
  cases phase <;> rfl

/-- With the size in 32 bits, only a finished transfer is at its end. -/
theorem phase_ended {log : Bytes} {config : Config}
    (small : log.length < 2 ^ 32) (phase : Phase log config)
    (ended : ∀ next, ¬ Step log config next) : Synchronised log config := by
  have size : announced log = log.length := Nat.mod_eq_of_lt small
  cases phase with
  | start buffer file => exact absurd (Or.inl rfl) (ended _)
  | headerSent buffer file => exact absurd (Or.inr (Or.inl rfl)) (ended _)
  | headerArrived buffer file => exact absurd (Or.inr (Or.inr rfl)) (ended _)
  | opening buffer file => exact absurd (Or.inr (Or.inr rfl)) (ended _)
  | opened buffer slave between => exact absurd (Or.inl rfl) (ended _)
  | ready buffer offset slave between acknowledged =>
      by_cases more : offset < log.length
      · exact absurd (Or.inl (if_pos more)) (ended _)
      · exact absurd (Or.inl (if_neg more)) (ended _)
  | chunkSent buffer offset slave between acknowledged more =>
      exact absurd (Or.inr (Or.inl rfl)) (ended _)
  | chunkArrived rest offset slave between acknowledged more =>
      rcases between with rfl | ⟨-, enough⟩
      · exact absurd (Or.inr (Or.inr (if_pos (size ▸ more)))) (ended _)
      · omega
  | writing rest offset wanted acknowledged more =>
      exact absurd (Or.inr (Or.inr rfl)) (ended _)
  | acking buffer offset wanted acknowledged more =>
      exact absurd (Or.inr (Or.inr rfl)) (ended _)
  | acked buffer offset slave between acknowledged =>
      exact absurd (Or.inl rfl) (ended _)
  | finished buffer offset slave between acknowledged all =>
      rcases between with rfl | ⟨rfl, -⟩
      · have done : ¬ offset < announced log := by omega
        exact absurd (Or.inr (Or.inr (if_neg done))) (ended _)
      · exact ⟨rfl, rfl, List.take_of_length_le all⟩

/-- With more than 32 bits of size the master never finishes: the slave leaves
its loop before the end of the file. -/
theorem phase_unfinished {log : Bytes} {config : Config}
    (large : 2 ^ 32 ≤ log.length) (phase : Phase log config) :
    ¬ Synchronised log config := by
  rintro ⟨finished, -, -⟩
  cases phase with
  | finished buffer offset slave between acknowledged all =>
      rcases acknowledged with rfl | ⟨before, wanted, ⟨chunks, rfl⟩, -, rfl⟩
      · omega
      · have length := @chunkAt_length log (rdmaChunkSize * chunks)
        simp only [announced] at wanted
        simp only [rdmaChunkSize] at length wanted all
        omega
  | _ => exact nomatch finished

theorem initial_phase (log buffer file : Bytes) :
    Phase log (Config.initial buffer file) :=
  .start buffer file

theorem not_synchronises {log : Bytes} (large : 2 ^ 32 ≤ log.length) :
    ¬ Synchronises log := by
  intro synchronises
  obtain ⟨last, run, synchronised⟩ := (synchronises [] []).1.reached
  exact phase_unfinished large
    (holds_of_reached (fun _ _ => phase_step) (initial_phase log [] []) run)
    synchronised

/--
The transfer works for exactly the files whose size fits into an immediate: then
every run ends with both sides done and the same file.
-/
theorem synchronises_iff (log : Bytes) :
    Synchronises log ↔ log.length < 2 ^ 32 := by
  constructor
  · intro synchronises
    by_contra large
    exact not_synchronises (Nat.le_of_not_lt large) synchronises
  · intro small buffer file
    constructor
    · exact inevitably_of_rank (Config.rank log.length)
        (fun _ _ => step_rank) (fun _ _ => phase_step)
        (fun _ => phase_ended small) (initial_phase log buffer file)
    · intro config run
      exact phase_overwritten
        (holds_of_reached (fun _ _ => phase_step)
          (initial_phase log buffer file) run)

/-- A file of four gigabytes is taken for an empty one. -/
theorem fourGigabytes_not_synchronised :
    ¬ Synchronises (List.replicate (2 ^ 32) 0) := by
  apply not_synchronises
  rw [List.length_replicate]

end Kivo.Repl.RdmaSync
