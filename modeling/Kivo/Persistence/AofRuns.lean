import Kivo.Persistence.Log

/-!
# Runs of the append-only file

Beside the bytes that are logged, every step keeps the double buffer in order:
the flush buffer holds the write that is on its way for as long as it is, the
active buffer never exceeds its size, and the offset counts the bytes that were
submitted.  The states inside the waiting loop of `kvs_persistence_write` are
covered as well.
-/

namespace Kivo.Persistence.AofRuns

open Kivo.Clib.Memory
open Kivo.Persistence.Log

/-! ## The invariant -/

/-- The write that the kernel still has to carry out. -/
def inFlight (a : Aof) : Bytes :=
  a.submitted.getD []

/-- The double buffer is in order, over a file that had some content when it
was opened. -/
structure Buffered (initial : Bytes) (a : Aof) : Prop where
  grown : initial <+: a.file
  buffer : ∀ bytes, a.submitted = some bytes → a.flush = bytes
  room : a.active.length ≤ aofBufSize
  offset : a.offset = a.file.length + (inFlight a).length

theorem buffered_init (file : Bytes) :
    Buffered file (kvsPersistenceInit file) := by
  refine ⟨List.prefix_refl _, ?_, Nat.zero_le _, ?_⟩
  · intro bytes impossible
    cases impossible
  · simp [kvsPersistenceInit, inFlight]

/-! ## Steps -/

section Steps

variable {initial : Bytes} {a : Aof}

theorem kernelWrite_buffered (buffered : Buffered initial a) :
    Buffered initial a.kernelWrite := by
  rw [Aof.kernelWrite]
  split
  · exact buffered
  · next bytes submitted =>
      refine ⟨buffered.grown.trans (List.prefix_append _ _), ?_,
        buffered.room, ?_⟩
      · intro other impossible
        cases impossible
      · have offset := buffered.offset
        rw [inFlight, submitted] at offset
        simpa [inFlight] using offset

theorem aofTriggerFlushNolock_buffered (sqe : Bool) (ring : RingOk a)
    (buffered : Buffered initial a) :
    Buffered initial (aofTriggerFlushNolock sqe a) := by
  rw [aofTriggerFlushNolock]
  split_ifs with skip free
  · exact buffered
  · have idle : a.busy = false := by
      by_contra busy
      exact skip (Or.inr (by simpa using busy))
    have none := (ring.idle idle).1
    refine ⟨buffered.grown, ?_, Nat.zero_le _, ?_⟩
    · intro bytes submitted
      exact Option.some.inj submitted
    · have offset := buffered.offset
      rw [inFlight, none] at offset
      simpa [inFlight] using offset
  · exact buffered

theorem reap_buffered (done : a.submitted = none)
    (buffered : Buffered initial a) :
    Buffered initial a.reap := by
  refine ⟨buffered.grown, ?_, buffered.room, buffered.offset⟩
  intro bytes submitted
  have impossible : some bytes = none := submitted.symm.trans done
  cases impossible

theorem aofCheckCqeNonblock_buffered (sqe : Bool) (ring : RingOk a)
    (buffered : Buffered initial a) :
    Buffered initial (aofCheckCqeNonblock sqe a) := by
  rw [aofCheckCqeNonblock]
  split_ifs with busy any full
  · have done := ring.done busy any
    exact aofTriggerFlushNolock_buffered sqe (reap_conserves done).ring
      (reap_buffered done buffered)
  · exact reap_buffered (ring.done busy any) buffered
  · exact buffered
  · exact buffered

theorem waitCqe_buffered (ring : RingOk a) (busy : a.busy = true)
    (buffered : Buffered initial a) :
    Buffered initial a.waitCqe := by
  have after := (waitCqe_conserves ring busy).ring.idle rfl
  have done : Buffered initial
      (if a.completions = 0 then a.kernelWrite else a) := by
    split_ifs
    · exact kernelWrite_buffered buffered
    · exact buffered
  refine ⟨done.grown, ?_, done.room, done.offset⟩
  intro bytes submitted
  have impossible : some bytes = none := submitted.symm.trans after.1
  cases impossible

theorem waitIteration_buffered (luck : Luck) (ring : RingOk a)
    (buffered : Buffered initial a) :
    Buffered initial (a.waitIteration luck) := by
  rw [Aof.waitIteration]
  have seen : RingOk (if luck.finished then a.kernelWrite else a) ∧
      Buffered initial (if luck.finished then a.kernelWrite else a) := by
    split_ifs
    · exact ⟨(kernelWrite_conserves ring).ring,
        kernelWrite_buffered buffered⟩
    · exact ⟨ring, buffered⟩
  have checked := And.intro
    (aofCheckCqeNonblock_conserves luck.checkSqe seen.1).ring
    (aofCheckCqeNonblock_buffered luck.checkSqe seen.1 seen.2)
  revert checked
  generalize aofCheckCqeNonblock luck.checkSqe _ = b
  intro checked
  have waited : RingOk (if b.busy && luck.waited then b.waitCqe else b) ∧
      Buffered initial (if b.busy && luck.waited then b.waitCqe else b) := by
    split_ifs with wait
    · have busy := (Bool.and_eq_true _ _ ▸ wait).1
      exact ⟨(waitCqe_conserves checked.1 busy).ring,
        waitCqe_buffered checked.1 busy checked.2⟩
    · exact checked
  exact aofTriggerFlushNolock_buffered luck.triggerSqe waited.1 waited.2

theorem kvsPersistenceForceFlush_buffered (checkSqe triggerSqe : Bool)
    (now : Nat) (ring : RingOk a) (buffered : Buffered initial a) :
    Buffered initial (kvsPersistenceForceFlush checkSqe triggerSqe now a) := by
  rw [kvsPersistenceForceFlush]
  split_ifs with closed
  · exact buffered
  · have checked := aofCheckCqeNonblock_buffered checkSqe ring buffered
    have checkedRing := (aofCheckCqeNonblock_conserves checkSqe ring).ring
    dsimp only
    split_ifs
    · obtain ⟨grown, buffer, room, offset⟩ :=
        aofTriggerFlushNolock_buffered triggerSqe checkedRing checked
      exact ⟨grown, buffer, room, offset⟩
    · exact checked

theorem kvsPersistenceFlushPending_buffered (checkSqe triggerSqe : Bool)
    (now : Nat) (ring : RingOk a) (buffered : Buffered initial a) :
    Buffered initial (kvsPersistenceFlushPending checkSqe triggerSqe now a) := by
  rw [kvsPersistenceFlushPending]
  split_ifs with closed
  · exact buffered
  · have checked := aofCheckCqeNonblock_buffered checkSqe ring buffered
    have checkedRing := (aofCheckCqeNonblock_conserves checkSqe ring).ring
    dsimp only
    split_ifs
    · obtain ⟨grown, buffer, room, offset⟩ :=
        aofTriggerFlushNolock_buffered triggerSqe checkedRing checked
      exact ⟨grown, buffer, room, offset⟩
    · exact checked

/-- The waiting loop ends with room for the frame. -/
theorem waitForRoom_buffered {b : Aof} {len : Nat} {lucks : List Luck}
    (ring : RingOk a) (buffered : Buffered initial a)
    (ready : a.waitForRoom len lucks = some b) :
    Buffered initial b ∧ b.active.length + len ≤ aofBufSize := by
  induction lucks generalizing a with
  | nil =>
      rw [Aof.waitForRoom] at ready
      split_ifs at ready with full
      cases ready
      exact ⟨buffered, Nat.le_of_not_lt full⟩
  | cons luck later induction =>
      rw [Aof.waitForRoom] at ready
      split_ifs at ready with full
      · exact induction (waitIteration_conserves luck ring).ring
          (waitIteration_buffered luck ring buffered) ready
      · cases ready
        exact ⟨buffered, Nat.le_of_not_lt full⟩

theorem kvsPersistenceWrite_buffered {b : Aof} {lucks : List Luck}
    {data : Bytes} (ring : RingOk a) (buffered : Buffered initial a)
    (written : kvsPersistenceWrite lucks data a = some b) :
    Buffered initial b := by
  rw [kvsPersistenceWrite] at written
  split_ifs at written with skip large
  · cases written
    exact buffered
  · cases written
    exact buffered
  · obtain ⟨ready, waited, rfl⟩ := Option.map_eq_some_iff.mp written
    obtain ⟨⟨grown, buffer, _, offset⟩, room⟩ :=
      waitForRoom_buffered ring buffered waited
    refine ⟨grown, buffer, ?_, offset⟩
    dsimp only
    rw [List.length_append]
    exact room

theorem step_buffered {b : Aof} {event : AofEvent} (ring : RingOk a)
    (buffered : Buffered initial a) (step : a.step event = some b) :
    Buffered initial b := by
  cases event with
  | write lucks data => exact kvsPersistenceWrite_buffered ring buffered step
  | flushPending checkSqe triggerSqe now =>
      cases step
      exact kvsPersistenceFlushPending_buffered checkSqe triggerSqe now ring
        buffered
  | forceFlush checkSqe triggerSqe now =>
      cases step
      exact kvsPersistenceForceFlush_buffered checkSqe triggerSqe now ring
        buffered
  | kernel =>
      cases step
      exact kernelWrite_buffered buffered

end Steps

/-! ## Runs -/

theorem run_buffered {initial : Bytes} {a b : Aof}
    {events : List AofEvent} (ring : RingOk a)
    (opened : a.fd ≠ .closed)
    (fits : ∀ frame ∈ writtenFrames events, frame.length ≤ aofBufSize)
    (buffered : Buffered initial a) (run : a.run events = some b) :
    Buffered initial b := by
  induction events generalizing a with
  | nil =>
      cases run
      exact buffered
  | cons event events induction =>
      rw [writtenFrames, List.flatMap_cons] at fits
      rw [Aof.run] at run
      obtain ⟨next, step, rest⟩ := Option.bind_eq_some_iff.mp run
      obtain ⟨nextRing, _, nextFd⟩ := step_logged ring opened
        (fun frame member => fits frame (List.mem_append_left _ member)) step
      exact induction nextRing (by rw [nextFd]; exact opened)
        (fun frame member => fits frame (List.mem_append_right _ member))
        (step_buffered ring buffered step) rest

/-- The states inside the waiting loop of a write. -/
def waiting (lucks : List Luck) (a : Aof) : Aof :=
  lucks.foldl (fun state luck => state.waitIteration luck) a

theorem waiting_conserves {initial : Bytes} {a : Aof}
    (lucks : List Luck) (ring : RingOk a)
    (buffered : Buffered initial a) :
    Conserves a (waiting lucks a) ∧ Buffered initial (waiting lucks a) := by
  induction lucks generalizing a with
  | nil => exact ⟨Conserves.refl ring, buffered⟩
  | cons luck later induction =>
      have step := waitIteration_conserves luck ring
      obtain ⟨rest, last⟩ := induction step.ring
        (waitIteration_buffered luck ring buffered)
      exact ⟨step.trans rest, last⟩

/--
What holds of the append-only file in every state: the bytes that were
submitted are in the file or on their way, all others are in the active buffer,
and nothing is missing, repeated or out of order.
-/
structure Ordered (initial written : Bytes) (a : Aof) : Prop where
  logged : a.file ++ inFlight a ++ a.active = initial ++ written
  oneInFlight : a.completions + (if a.submitted.isSome then 1 else 0) ≤ 1
  buffer : ∀ bytes, a.submitted = some bytes → a.flush = bytes
  room : a.active.length ≤ aofBufSize
  offset : ∃ sent, a.file ++ inFlight a = initial ++ sent ∧
    sent ++ a.active = written ∧ a.offset = initial.length + sent.length

theorem ordered_of_logged {initial written : Bytes} {a : Aof}
    (ring : RingOk a) (buffered : Buffered initial a)
    (logged : a.logged = initial ++ written) :
    Ordered initial written a := by
  have parts : a.file ++ inFlight a ++ a.active = initial ++ written := by
    rw [← logged, Aof.logged, Aof.pending, inFlight, List.append_assoc]
  refine ⟨parts, ?_, buffered.buffer, buffered.room, ?_⟩
  · cases busy : a.busy with
    | false =>
        obtain ⟨none, zero⟩ := ring.idle busy
        rw [none, zero]
        decide
    | true =>
        obtain ⟨done, one⟩ := ring.one busy
        cases submitted : a.submitted with
        | none => exact one
        | some bytes =>
            rw [submitted] at done
            have zero : a.completions ≠ 1 :=
              fun same => by cases done.mpr same
            rw [Option.isSome_some, if_pos rfl]
            omega
  · obtain ⟨sent, same⟩ := buffered.grown.trans
      (List.prefix_append a.file (inFlight a))
    refine ⟨sent, same.symm, ?_, ?_⟩
    · rw [← same, List.append_assoc] at parts
      exact List.append_cancel_left parts
    · have length := congrArg List.length same
      rw [List.length_append, List.length_append] at length
      rw [buffered.offset]
      omega

/--
After every sequence of writes, flushes and completions, and in every state of
the waiting loop of a further write, the append-only file is in order.
-/
theorem aofRun_ordered (initial : Bytes) {events : List AofEvent} {a : Aof}
    (fits : ∀ frame ∈ writtenFrames events, frame.length ≤ aofBufSize)
    (run : (kvsPersistenceInit initial).run events = some a)
    (lucks : List Luck) :
    Ordered initial (writtenFrames events).flatten (waiting lucks a) := by
  have opened : (kvsPersistenceInit initial).fd ≠ .closed := by
    intro impossible
    cases impossible
  have started := ringOk_init initial
  obtain ⟨ring, logged, _⟩ := run_logged started opened fits run
  have buffered := run_buffered started opened fits (buffered_init initial) run
  obtain ⟨conserves, after⟩ := waiting_conserves lucks ring buffered
  refine ordered_of_logged conserves.ring after ?_
  rw [conserves.logged, logged, Aof.logged, Aof.pending, kvsPersistenceInit]
  simp

/-- A write is flushed and completed while a second one waits. -/
theorem aofRun_ordered_flushed :
    (kvsPersistenceInit [1]).run
        [.write [] [2, 3], .forceFlush true true 9, .write [] [4], .kernel] ≠
        none ∧
      ∀ a, (kvsPersistenceInit [1]).run
          [.write [] [2, 3], .forceFlush true true 9, .write [] [4],
            .kernel] = some a →
        Ordered [1] [2, 3, 4] a := by
  constructor
  · decide
  · intro a run
    refine aofRun_ordered [1] ?_ run []
    intro frame member
    have short : frame ∈ [[2, 3], [4]] := member
    rcases List.mem_cons.mp short with rfl | last
    · decide
    · rw [List.mem_singleton.mp last]
      decide

end Kivo.Persistence.AofRuns
