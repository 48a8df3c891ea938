import Kivo.Resp.Stream

/-!
# The append-only file

`persistence.c` keeps two memory buffers: frames are copied to the active one,
and a flush swaps the two and hands the full one to `io_uring`.  At most one
write is on its way.  The kernel carries it out some time later and leaves a
completion entry, which the server reaps some time after that.

What the server cannot decide is an argument of the model: whether a
submission slot is free, whether the kernel has finished, and how long the
server waits.  The file is opened with `O_APPEND`, so the kernel appends at
the end of the file whatever offset the request carries.
-/

namespace Kivo.Persistence.Log

open Kivo.Clib.Memory
open Kivo.Resp.Stream

/-! ## State -/

/-- `AOF_BUF_SIZE`. -/
def aofBufSize : Nat := 64 * 1024 * 1024

/-- `AOF_MIN_FLUSH_SIZE`. -/
def aofMinFlushSize : Nat := 16 * 1024

/-- `AOF_FLUSH_TIMEOUT_MS`. -/
def aofFlushTimeoutMs : Nat := 10

/-- What `aof_fd` refers to. -/
inductive AofFd where
  | closed
  | readOnly
  | append
deriving DecidableEq, Repr

/--
The static variables of `persistence.c`, the content of the file, and the two
ends of the ring: the write the kernel still has to carry out and the number
of completion entries that have not been reaped.
-/
structure Aof where
  fd : AofFd
  file : Bytes
  active : Bytes
  flush : Bytes
  busy : Bool
  offset : Int
  lastFlushMs : Nat
  submitted : Option Bytes
  completions : Nat
deriving DecidableEq, Repr

/-- `kvs_persistence_init` over a file with the given content. -/
def kvsPersistenceInit (file : Bytes) : Aof :=
  { fd := .append
    file := file
    active := []
    flush := []
    busy := false
    offset := file.length
    lastFlushMs := 0
    submitted := none
    completions := 0 }

/-! ## The ring -/

/-- The kernel carries out the submitted write. -/
def Aof.kernelWrite (a : Aof) : Aof :=
  match a.submitted with
  | none => a
  | some bytes =>
      { a with
        file := a.file ++ bytes
        submitted := none
        completions := a.completions + 1 }

/-- `aof_trigger_flush_nolock`; `sqe` says that a slot was free. -/
def aofTriggerFlushNolock (sqe : Bool) (a : Aof) : Aof :=
  if a.active.length = 0 ∨ a.busy then a
  else if sqe then
    { a with
      active := []
      flush := a.active
      busy := true
      offset := a.offset + a.active.length
      submitted := some a.active }
  else a

/-- The part of `aof_check_cqe_nonblock` behind the reaped entries. -/
def Aof.reap (a : Aof) : Aof :=
  { a with busy := false, flush := [], completions := 0 }

/-- `aof_check_cqe_nonblock`. -/
def aofCheckCqeNonblock (sqe : Bool) (a : Aof) : Aof :=
  if a.busy then
    if 0 < a.completions then
      if aofMinFlushSize ≤ a.active.length then
        aofTriggerFlushNolock sqe a.reap
      else a.reap
    else a
  else a

/-- `io_uring_wait_cqe` and what follows it: block until the write is done. -/
def Aof.waitCqe (a : Aof) : Aof :=
  let done := if a.completions = 0 then a.kernelWrite else a
  { done with
    busy := false
    flush := []
    completions := done.completions - 1 }

/-! ## Operations -/

/-- What happens around one iteration of the waiting loop. -/
structure Luck where
  finished : Bool
  checkSqe : Bool
  waited : Bool
  triggerSqe : Bool
deriving DecidableEq, Repr

/-- The body of the waiting loop of `kvs_persistence_write`. -/
def Aof.waitIteration (luck : Luck) (a : Aof) : Aof :=
  let seen := if luck.finished then a.kernelWrite else a
  let checked := aofCheckCqeNonblock luck.checkSqe seen
  let waited :=
    if checked.busy && luck.waited then checked.waitCqe else checked
  aofTriggerFlushNolock luck.triggerSqe waited

/-- The waiting loop; `none` says that it has not ended yet. -/
def Aof.waitForRoom (len : Nat) : List Luck → Aof → Option Aof
  | [], a => if a.active.length + len > aofBufSize then none else some a
  | luck :: later, a =>
      if a.active.length + len > aofBufSize then
        Aof.waitForRoom len later (a.waitIteration luck)
      else some a

/-- `kvs_persistence_write`. -/
def kvsPersistenceWrite (lucks : List Luck) (data : Bytes) (a : Aof) :
    Option Aof :=
  if a.fd = .closed ∨ data.length = 0 then some a
  else if data.length > aofBufSize then some a
  else
    (a.waitForRoom data.length lucks).map
      (fun ready => { ready with active := ready.active ++ data })

/-- `kvs_persistence_flush_pending`. -/
def kvsPersistenceFlushPending (checkSqe triggerSqe : Bool) (now : Nat)
    (a : Aof) : Aof :=
  if a.fd = .closed then a
  else
    let checked := aofCheckCqeNonblock checkSqe a
    let needFlushBySize := aofMinFlushSize ≤ checked.active.length
    let needFlushByTime := 0 < checked.active.length ∧
      aofFlushTimeoutMs ≤ (now + (2 ^ 64 - checked.lastFlushMs)) % 2 ^ 64
    if !checked.busy ∧ (needFlushBySize ∨ needFlushByTime) then
      { aofTriggerFlushNolock triggerSqe checked with lastFlushMs := now }
    else checked

/-- `kvs_persistence_force_flush`. -/
def kvsPersistenceForceFlush (checkSqe triggerSqe : Bool) (now : Nat)
    (a : Aof) : Aof :=
  if a.fd = .closed then a
  else
    let checked := aofCheckCqeNonblock checkSqe a
    if !checked.busy ∧ 0 < checked.active.length then
      { aofTriggerFlushNolock triggerSqe checked with lastFlushMs := now }
    else checked

/--
`kvs_persistence_recover`; `none` says that the replay exceeded its fuel.  An
empty file is not reopened for appending.
-/
def kvsPersistenceRecover {κ σ : Type} (layer : CommandLayer κ σ)
    (fuel : Nat) (a : Aof) (session : Session σ) :
    Option (Aof × Session σ) :=
  if a.file.length = 0 then
    some ({ a with fd := if a.fd = .closed then .readOnly else a.fd },
      session)
  else
    (protocolProcessRecover layer fuel a.file 0 (toInt32 a.file.length)
      session).map
      (fun result =>
        ({ a with fd := .append, offset := a.file.length }, result.2))

/-! ## Runs -/

/-- What happens to the append-only file while the server runs. -/
inductive AofEvent where
  | write (lucks : List Luck) (data : Bytes)
  | flushPending (checkSqe triggerSqe : Bool) (now : Nat)
  | forceFlush (checkSqe triggerSqe : Bool) (now : Nat)
  | kernel
deriving DecidableEq, Repr

/-- One event. -/
def Aof.step (event : AofEvent) (a : Aof) : Option Aof :=
  match event with
  | .write lucks data => kvsPersistenceWrite lucks data a
  | .flushPending checkSqe triggerSqe now =>
      some (kvsPersistenceFlushPending checkSqe triggerSqe now a)
  | .forceFlush checkSqe triggerSqe now =>
      some (kvsPersistenceForceFlush checkSqe triggerSqe now a)
  | .kernel => some a.kernelWrite

/-- A sequence of events. -/
def Aof.run : List AofEvent → Aof → Option Aof
  | [], a => some a
  | event :: events, a => (a.step event).bind (Aof.run events)

/-- The frame an event logs. -/
def AofEvent.written : AofEvent → List Bytes
  | .write _ data => [data]
  | _ => []

/-- The arguments of `kvs_persistence_write` in a sequence of events. -/
def writtenFrames (events : List AofEvent) : List Bytes :=
  events.flatMap AofEvent.written

/-! ## The ring invariant -/

/-- Bytes that were logged and have not reached the file. -/
def Aof.pending (a : Aof) : Bytes :=
  a.submitted.getD [] ++ a.active

/-- The file as it will be once everything pending has been written. -/
def Aof.logged (a : Aof) : Bytes :=
  a.file ++ a.pending

/-- Nothing logged is missing from the file. -/
def Aof.Flushed (a : Aof) : Prop :=
  a.active = [] ∧ a.busy = false

/--
The server is busy exactly while one write is submitted or one completion
entry waits to be reaped.
-/
structure RingOk (a : Aof) : Prop where
  idle : a.busy = false → a.submitted = none ∧ a.completions = 0
  one : a.busy = true → (a.submitted = none ↔ a.completions = 1) ∧
    a.completions ≤ 1

theorem ringOk_init (file : Bytes) : RingOk (kvsPersistenceInit file) :=
  ⟨fun _ => ⟨rfl, rfl⟩, fun busy => by cases busy⟩

/-- A completion entry that waits says that the write has been carried out. -/
theorem RingOk.done {a : Aof} (ring : RingOk a) (busy : a.busy = true)
    (any : 0 < a.completions) :
    a.submitted = none := by
  obtain ⟨done, one⟩ := ring.one busy
  exact done.mpr (Nat.le_antisymm one any)

/-- What an operation of the ring preserves. -/
structure Conserves (a b : Aof) : Prop where
  ring : RingOk b
  logged : b.logged = a.logged
  fd : b.fd = a.fd

theorem Conserves.refl {a : Aof} (ring : RingOk a) : Conserves a a :=
  ⟨ring, rfl, rfl⟩

theorem Conserves.trans {a b c : Aof}
    (first : Conserves a b) (second : Conserves b c) : Conserves a c :=
  ⟨second.ring, second.logged.trans first.logged, second.fd.trans first.fd⟩

theorem kernelWrite_conserves {a : Aof} (ring : RingOk a) :
    Conserves a a.kernelWrite := by
  rw [Aof.kernelWrite]
  split
  · exact Conserves.refl ring
  · next bytes submitted =>
      have busy : a.busy = true := by
        by_contra idle
        have none := (ring.idle (by simpa using idle)).1
        rw [submitted] at none
        cases none
      have one := ring.one busy
      rw [submitted] at one
      refine ⟨⟨?_, ?_⟩, ?_, rfl⟩
      · intro idle
        rw [busy] at idle
        cases idle
      · intro _
        simp at one ⊢
        omega
      · simp [Aof.logged, Aof.pending, submitted]

theorem aofTriggerFlushNolock_conserves {a : Aof} (sqe : Bool)
    (ring : RingOk a) :
    Conserves a (aofTriggerFlushNolock sqe a) := by
  rw [aofTriggerFlushNolock]
  split_ifs with skip free
  · exact Conserves.refl ring
  · have idle : a.busy = false := by
      by_contra busy
      exact skip (Or.inr (by simpa using busy))
    obtain ⟨none, zero⟩ := ring.idle idle
    refine ⟨⟨?_, ?_⟩, ?_, rfl⟩
    · intro contradiction
      cases contradiction
    · intro _
      simp [zero]
    · simp [Aof.logged, Aof.pending, none]
  · exact Conserves.refl ring

theorem reap_conserves {a : Aof} (done : a.submitted = none) :
    Conserves a a.reap := by
  refine ⟨⟨?_, ?_⟩, rfl, rfl⟩
  · intro _
    exact ⟨done, rfl⟩
  · intro contradiction
    cases contradiction

theorem aofCheckCqeNonblock_conserves {a : Aof} (sqe : Bool)
    (ring : RingOk a) :
    Conserves a (aofCheckCqeNonblock sqe a) := by
  rw [aofCheckCqeNonblock]
  split_ifs with busy any full
  · have done := ring.done busy any
    have reaped := reap_conserves done
    exact reaped.trans (aofTriggerFlushNolock_conserves sqe reaped.ring)
  · have done := ring.done busy any
    exact reap_conserves done
  · exact Conserves.refl ring
  · exact Conserves.refl ring

theorem waitCqe_conserves {a : Aof} (ring : RingOk a)
    (busy : a.busy = true) :
    Conserves a a.waitCqe := by
  have limit := (ring.one busy).2
  rw [Aof.waitCqe]
  by_cases zero : a.completions = 0
  · have written := kernelWrite_conserves ring
    obtain ⟨bytes, submitted⟩ : ∃ bytes, a.submitted = some bytes := by
      cases state : a.submitted with
      | none =>
          have one := (ring.one busy).1.mp state
          omega
      | some bytes => exact ⟨bytes, rfl⟩
    have done : a.kernelWrite.submitted = none ∧
        a.kernelWrite.completions = 1 := by
      rw [Aof.kernelWrite, submitted]
      exact ⟨rfl, by simp [zero]⟩
    simp only [zero, if_true]
    refine ⟨⟨?_, ?_⟩, written.logged, written.fd⟩
    · intro _
      exact ⟨done.1, by simp [done.2]⟩
    · intro contradiction
      cases contradiction
  · have done := ring.done busy (Nat.pos_of_ne_zero zero)
    simp only [zero, if_false]
    refine ⟨⟨?_, ?_⟩, rfl, rfl⟩
    · intro _
      exact ⟨done, by dsimp only; omega⟩
    · intro contradiction
      cases contradiction

theorem waitIteration_conserves {a : Aof} (luck : Luck) (ring : RingOk a) :
    Conserves a (a.waitIteration luck) := by
  rw [Aof.waitIteration]
  have seen : Conserves a
      (if luck.finished then a.kernelWrite else a) := by
    split_ifs
    · exact kernelWrite_conserves ring
    · exact Conserves.refl ring
  have checked := seen.trans
    (aofCheckCqeNonblock_conserves luck.checkSqe seen.ring)
  revert checked
  generalize aofCheckCqeNonblock luck.checkSqe _ = b
  intro checked
  have waited : Conserves a
      (if b.busy && luck.waited then b.waitCqe else b) := by
    split_ifs with wait
    · exact checked.trans (waitCqe_conserves checked.ring (by
        rw [Bool.and_eq_true] at wait
        exact wait.1))
    · exact checked
  exact waited.trans
    (aofTriggerFlushNolock_conserves luck.triggerSqe waited.ring)

theorem waitForRoom_conserves {a b : Aof} {len : Nat} {lucks : List Luck}
    (ring : RingOk a) (ready : a.waitForRoom len lucks = some b) :
    Conserves a b := by
  induction lucks generalizing a with
  | nil =>
      rw [Aof.waitForRoom] at ready
      split_ifs at ready with full
      cases ready
      exact Conserves.refl ring
  | cons luck later induction =>
      rw [Aof.waitForRoom] at ready
      split_ifs at ready with full
      · have stepped := waitIteration_conserves luck ring
        exact stepped.trans (induction stepped.ring ready)
      · cases ready
        exact Conserves.refl ring

theorem kvsPersistenceForceFlush_conserves {a : Aof}
    (checkSqe triggerSqe : Bool) (now : Nat) (ring : RingOk a) :
    Conserves a (kvsPersistenceForceFlush checkSqe triggerSqe now a) := by
  rw [kvsPersistenceForceFlush]
  split_ifs with closed
  · exact Conserves.refl ring
  · have checked := aofCheckCqeNonblock_conserves checkSqe ring
    dsimp only
    split_ifs
    · obtain ⟨⟨idle, one⟩, logged, fd⟩ := checked.trans
        (aofTriggerFlushNolock_conserves triggerSqe checked.ring)
      exact ⟨⟨idle, one⟩, logged, fd⟩
    · exact checked

theorem kvsPersistenceFlushPending_conserves {a : Aof}
    (checkSqe triggerSqe : Bool) (now : Nat) (ring : RingOk a) :
    Conserves a (kvsPersistenceFlushPending checkSqe triggerSqe now a) := by
  rw [kvsPersistenceFlushPending]
  split_ifs with closed
  · exact Conserves.refl ring
  · have checked := aofCheckCqeNonblock_conserves checkSqe ring
    dsimp only
    split_ifs
    · obtain ⟨⟨idle, one⟩, logged, fd⟩ := checked.trans
        (aofTriggerFlushNolock_conserves triggerSqe checked.ring)
      exact ⟨⟨idle, one⟩, logged, fd⟩
    · exact checked

/-- A frame that fits the buffer is appended to what has been logged. -/
theorem kvsPersistenceWrite_logged {a b : Aof} {lucks : List Luck}
    {data : Bytes} (ring : RingOk a) (opened : a.fd ≠ .closed)
    (fits : data.length ≤ aofBufSize)
    (written : kvsPersistenceWrite lucks data a = some b) :
    RingOk b ∧ b.logged = a.logged ++ data ∧ b.fd = a.fd := by
  rw [kvsPersistenceWrite] at written
  split_ifs at written with skip large
  · cases written
    have empty : data = [] := by
      rcases skip with closed | empty
      · exact absurd closed opened
      · exact List.eq_nil_of_length_eq_zero empty
    exact ⟨ring, by rw [empty, List.append_nil], rfl⟩
  · omega
  · obtain ⟨ready, waited, rfl⟩ := Option.map_eq_some_iff.mp written
    obtain ⟨⟨idle, one⟩, logged, fd⟩ := waitForRoom_conserves ring waited
    refine ⟨⟨idle, one⟩, ?_, fd⟩
    rw [← logged]
    simp [Aof.logged, Aof.pending]

/-- One event adds the frame it logs, and nothing else, to the log. -/
theorem step_logged {a b : Aof} {event : AofEvent} (ring : RingOk a)
    (opened : a.fd ≠ .closed)
    (fits : ∀ frame ∈ event.written, frame.length ≤ aofBufSize)
    (step : a.step event = some b) :
    RingOk b ∧ b.logged = a.logged ++ event.written.flatten ∧
      b.fd = a.fd := by
  cases event with
  | write lucks data =>
      rw [Aof.step] at step
      simpa [AofEvent.written] using
        kvsPersistenceWrite_logged ring opened
          (fits data (by simp [AofEvent.written])) step
  | flushPending checkSqe triggerSqe now =>
      cases step
      obtain ⟨ring, logged, fd⟩ :=
        kvsPersistenceFlushPending_conserves checkSqe triggerSqe now ring
      exact ⟨ring, by simp [logged, AofEvent.written], fd⟩
  | forceFlush checkSqe triggerSqe now =>
      cases step
      obtain ⟨ring, logged, fd⟩ :=
        kvsPersistenceForceFlush_conserves checkSqe triggerSqe now ring
      exact ⟨ring, by simp [logged, AofEvent.written], fd⟩
  | kernel =>
      cases step
      obtain ⟨ring, logged, fd⟩ := kernelWrite_conserves ring
      exact ⟨ring, by simp [logged, AofEvent.written], fd⟩

/--
Whatever the order of writes, flushes and completions, the file followed by
the pending bytes is the file of the start followed by the logged frames.
-/
theorem run_logged {a b : Aof} {events : List AofEvent} (ring : RingOk a)
    (opened : a.fd ≠ .closed)
    (fits : ∀ frame ∈ writtenFrames events, frame.length ≤ aofBufSize)
    (run : a.run events = some b) :
    RingOk b ∧ b.logged = a.logged ++ (writtenFrames events).flatten ∧
      b.fd = a.fd := by
  induction events generalizing a with
  | nil =>
      cases run
      exact ⟨ring, by simp [writtenFrames], rfl⟩
  | cons event events induction =>
      rw [Aof.run] at run
      obtain ⟨next, step, rest⟩ := Option.bind_eq_some_iff.mp run
      obtain ⟨nextRing, nextLogged, nextFd⟩ := step_logged ring opened
        (fun frame member => fits frame (by
          rw [writtenFrames, List.flatMap_cons]
          exact List.mem_append_left _ member)) step
      obtain ⟨endRing, endLogged, endFd⟩ := induction nextRing
        (by rw [nextFd]; exact opened)
        (fun frame member => fits frame (by
          rw [writtenFrames, List.flatMap_cons]
          exact List.mem_append_right _ member)) rest
      refine ⟨endRing, ?_, endFd.trans nextFd⟩
      rw [endLogged, nextLogged, writtenFrames, writtenFrames,
        List.flatMap_cons, List.flatten_append, List.append_assoc]

/-- A flushed file holds everything that was logged. -/
theorem RingOk.file_of_flushed {a : Aof} (ring : RingOk a)
    (flushed : a.Flushed) :
    a.file = a.logged := by
  have none := (ring.idle flushed.2).1
  simp [Aof.logged, Aof.pending, none, flushed.1]

end Kivo.Persistence.Log
