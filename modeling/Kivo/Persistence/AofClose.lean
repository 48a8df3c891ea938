import Kivo.Persistence.AofRuns

/-!
# Completion results and the shutdown of the append-only file

A completion entry carries a result: the number of bytes that were written or
an error.  The server prints an error and looks at nothing else, so what a
write left out is gone once its entry has been reaped.

`kvs_persistence_close` reaps, swaps, waits and writes the rest.  Its waiting
loop is driven by the busy flag, which nothing inside the loop clears: whoever
enters it waits for one completion more than there are writes.  A wait for a
completion that is due, or will be, succeeds; the model gives no result when
the wait has nothing to come.
-/

namespace Kivo.Persistence.AofClose

open Kivo.Clib.Memory
open Kivo.Persistence.Log
open Kivo.Persistence.AofRuns

/-! ## Completion results -/

/-- The result of a write: all bytes, fewer, or an error. -/
inductive Completion where
  | full
  | short (res : Nat)
  | failed (errno : Nat)
deriving DecidableEq, Repr

/-- The bytes that reach the file. -/
def Completion.taken (completion : Completion) (bytes : Bytes) : Bytes :=
  match completion with
  | .full => bytes
  | .short res => bytes.take (min res (bytes.length - 1))
  | .failed _ => []

/-- The kernel carries out the submitted write, with some result. -/
def complete (completion : Completion) (a : Aof) : Aof :=
  match a.submitted with
  | none => a
  | some bytes =>
      { a with
        file := a.file ++ completion.taken bytes
        submitted := none
        completions := a.completions + 1 }

/-- `io_uring_wait_cqe` and `io_uring_cqe_seen`: take one entry, waiting for it
if need be. -/
def takeCqe (completion : Completion) (a : Aof) : Aof :=
  let done := if a.completions = 0 then complete completion a else a
  { done with completions := done.completions - 1 }

/-- What happens around one round of the waiting loop, and the result of the
write if it finishes there. -/
structure Round where
  luck : Luck
  completion : Completion
deriving DecidableEq, Repr

/-- The body of the waiting loop of `kvs_persistence_write`. -/
def waitRound (round : Round) (a : Aof) : Aof :=
  let seen := if round.luck.finished then complete round.completion a else a
  let checked := aofCheckCqeNonblock round.luck.checkSqe seen
  let waited :=
    if checked.busy && round.luck.waited then
      { takeCqe round.completion checked with busy := false, flush := [] }
    else checked
  aofTriggerFlushNolock round.luck.triggerSqe waited

/-- The waiting loop; `none` says that it has not ended yet. -/
def waitRounds (len : Nat) : List Round → Aof → Option Aof
  | [], a => if a.active.length + len > aofBufSize then none else some a
  | round :: later, a =>
      if a.active.length + len > aofBufSize then
        waitRounds len later (waitRound round a)
      else some a

/-- `kvs_persistence_write`, with the results of the writes that finish while
it waits. -/
def writeWith (rounds : List Round) (data : Bytes) (a : Aof) : Option Aof :=
  if a.fd = .closed ∨ data.length = 0 then some a
  else if data.length > aofBufSize then some a
  else
    (waitRounds data.length rounds a).map
      (fun ready => { ready with active := ready.active ++ data })

/-! ## Closing -/

/-- What happens around `kvs_persistence_close`: whether a write finishes
before the first look at the ring, which slots are free, and the results of the
writes, the last one being that of `pwrite`. -/
structure CloseLuck where
  finished : Bool
  checkSqe : Bool
  triggerSqe : Bool
  finalSqe : Bool
  pending : Completion
  flushed : Completion
  final : Completion
  fallback : Completion
deriving DecidableEq, Repr

/-- The number of completion entries that are there or can still come. -/
def outstanding (a : Aof) : Nat :=
  a.completions + (if a.submitted.isSome then 1 else 0)

/--
The waiting loop of `kvs_persistence_close`, with the number of entries that
are to come; `none` says that it waits for an entry when there is none.
-/
def drain (completion : Completion) : Nat → Aof → Option Aof
  | 0, a => if a.busy then none else some a
  | more + 1, a =>
      if a.busy then drain completion more (takeCqe completion a)
      else some a

/-- The last write of `kvs_persistence_close`. -/
def writeRest (luck : CloseLuck) (a : Aof) : Aof :=
  if 0 < a.active.length then
    if luck.finalSqe then
      let written :=
        match luck.final with
        | .failed _ => luck.fallback.taken a.active
        | completion => completion.taken a.active
      { a with
        file := a.file ++ written
        offset := a.offset + a.active.length
        active := [] }
    else
      let written := luck.fallback.taken a.active
      { a with
        file := a.file ++ written
        offset := a.offset + written.length
        active := [] }
  else a

/-- The ring when `kvs_persistence_close` looks at it. -/
def seenAtClose (luck : CloseLuck) (a : Aof) : Aof :=
  if luck.finished then complete luck.pending a else a

/-- The first two steps of `kvs_persistence_close`: reap, then swap. -/
def swapAtClose (luck : CloseLuck) (a : Aof) : Aof :=
  let checked := aofCheckCqeNonblock luck.checkSqe (seenAtClose luck a)
  if !checked.busy ∧ 0 < checked.active.length then
    aofTriggerFlushNolock luck.triggerSqe checked
  else checked

/-- `kvs_persistence_close`; `none` says that it never returns. -/
def kvsPersistenceClose (luck : CloseLuck) (a : Aof) : Option Aof :=
  let swapped := swapAtClose luck a
  (drain luck.flushed (outstanding swapped) swapped).map (fun drained =>
    { writeRest luck { drained with busy := false, flush := [] } with
      fd := .closed })

/-- Every write yields all its bytes. -/
def CloseLuck.Full (luck : CloseLuck) : Prop :=
  luck.pending = .full ∧ luck.flushed = .full ∧ luck.final = .full ∧
    luck.fallback = .full

/-! ## Full completions -/

theorem complete_full (a : Aof) : complete .full a = a.kernelWrite := by
  rw [complete, Aof.kernelWrite]
  cases a.submitted with
  | none => rfl
  | some bytes => rfl

/-! ## When closing returns -/

/-- A busy server waits for an entry too many. -/
theorem drain_busy (completion : Completion) (more : Nat) {a : Aof}
    (busy : a.busy = true) :
    drain completion more a = none := by
  induction more generalizing a with
  | zero => rw [drain, if_pos busy]
  | succ more induction =>
      rw [drain, if_pos busy]
      apply induction
      rw [takeCqe]
      dsimp only
      split_ifs
      · rw [complete]
        cases a.submitted with
        | none => exact busy
        | some bytes => exact busy
      · exact busy

theorem drain_idle (completion : Completion) (more : Nat) {a : Aof}
    (idle : a.busy = false) :
    drain completion more a = some a := by
  cases more with
  | zero => rw [drain, idle, if_neg Bool.false_ne_true]
  | succ more => rw [drain, idle, if_neg Bool.false_ne_true]

/-- A full last write moves the active buffer to the file. -/
theorem writeRest_file {luck : CloseLuck} (full : luck.Full) (a : Aof) :
    (writeRest luck a).file = a.file ++ a.active := by
  obtain ⟨_, _, final, fallback⟩ := full
  rw [writeRest, final, fallback]
  split_ifs with some_byte free
  · rfl
  · rfl
  · have none : a.active = [] :=
      List.eq_nil_of_length_eq_zero (Nat.eq_zero_of_not_pos some_byte)
    rw [none, List.append_nil]

section Closing

variable {luck : CloseLuck} {a : Aof}

theorem seenAtClose_conserves (full : luck.Full) (ring : RingOk a) :
    Conserves a (seenAtClose luck a) := by
  rw [seenAtClose, full.1, complete_full]
  split_ifs
  · exact kernelWrite_conserves ring
  · exact Conserves.refl ring

theorem swapAtClose_conserves (full : luck.Full) (ring : RingOk a) :
    Conserves a (swapAtClose luck a) := by
  have seen := seenAtClose_conserves full ring
  have checked := seen.trans
    (aofCheckCqeNonblock_conserves luck.checkSqe seen.ring)
  rw [swapAtClose]
  split_ifs
  · exact checked.trans
      (aofTriggerFlushNolock_conserves luck.triggerSqe checked.ring)
  · exact checked

/-- Closing returns exactly when the server is idle behind the swap, and then
the file holds everything. -/
theorem kvsPersistenceClose_iff (full : luck.Full) (ring : RingOk a) :
    (∃ b, kvsPersistenceClose luck a = some b ∧ b.file = a.logged) ↔
      (swapAtClose luck a).busy = false := by
  have swapped := swapAtClose_conserves full ring
  rw [kvsPersistenceClose]
  cases busy : (swapAtClose luck a).busy with
  | true =>
      rw [drain_busy _ _ busy]
      refine iff_of_false ?_ (by decide)
      rintro ⟨b, impossible, _⟩
      cases impossible
  | false =>
      rw [drain_idle _ _ busy]
      refine iff_of_true ⟨_, rfl, ?_⟩ rfl
      dsimp only
      rw [writeRest_file full]
      dsimp only
      rw [← swapped.logged, Aof.logged, Aof.pending,
        (swapped.ring.idle busy).1]
      rfl

/-- The condition under which the server is idle behind the swap. -/
structure Quiet (luck : CloseLuck) (a : Aof) : Prop where
  done : a.submitted = none ∨ luck.finished = true
  empty : a.active = [] ∨
    luck.triggerSqe = false ∧
      (a.busy = true → aofMinFlushSize ≤ a.active.length →
        luck.checkSqe = false)

/-- A swap starts a write when there is something to write and a slot. -/
theorem aofTriggerFlushNolock_busy (sqe : Bool) {a : Aof}
    (idle : a.busy = false) :
    (aofTriggerFlushNolock sqe a).busy = false ↔
      a.active = [] ∨ sqe = false := by
  rw [aofTriggerFlushNolock]
  split_ifs with skip free
  · refine iff_of_true idle (Or.inl ?_)
    rcases skip with empty | busy
    · exact List.eq_nil_of_length_eq_zero empty
    · rw [idle] at busy
      cases busy
  · refine iff_of_false (by decide) ?_
    rintro (empty | taken)
    · exact skip (Or.inl (by rw [empty]; rfl))
    · rw [free] at taken
      cases taken
  · exact iff_of_true idle (Or.inr (Bool.eq_false_iff.mpr free))

theorem aofTriggerFlushNolock_idle (sqe : Bool) {a : Aof}
    (same : (aofTriggerFlushNolock sqe a).busy = false) :
    aofTriggerFlushNolock sqe a = a := by
  rw [aofTriggerFlushNolock] at same ⊢
  split_ifs at same ⊢ with skip free
  · rfl
  · rfl

/-- The second step on its own. -/
theorem swap_busy (sqe : Bool) (b : Aof) :
    (if !b.busy ∧ 0 < b.active.length then aofTriggerFlushNolock sqe b
      else b).busy = false ↔
      b.busy = false ∧ (b.active = [] ∨ sqe = false) := by
  cases busy : b.busy with
  | true => simp [busy]
  | false =>
      have idle := aofTriggerFlushNolock_busy sqe busy
      by_cases empty : b.active = []
      · simp [empty, busy]
      · have some_byte : 0 < b.active.length := List.length_pos_iff.mpr empty
        rw [if_pos ⟨by simp, some_byte⟩, idle]
        simp

/-- The first step leaves the server idle when the write is done and no new one
is started. -/
theorem aofCheckCqeNonblock_idle (sqe : Bool) (b : Aof) :
    ((aofCheckCqeNonblock sqe b).busy = false ↔
      (b.busy = false ∨ 0 < b.completions) ∧
        (b.busy = true → aofMinFlushSize ≤ b.active.length →
          sqe = false)) ∧
      ((aofCheckCqeNonblock sqe b).busy = false →
        (aofCheckCqeNonblock sqe b).active = b.active) := by
  rw [aofCheckCqeNonblock]
  split_ifs with busy any large
  · have reaped : b.reap.busy = false := rfl
    have some_byte : b.reap.active ≠ [] := by
      intro empty
      have zero : b.active.length = 0 := by
        rw [show b.active = [] from empty]
        rfl
      rw [zero] at large
      exact absurd large (by decide)
    constructor
    · rw [aofTriggerFlushNolock_busy sqe reaped, or_iff_right some_byte]
      constructor
      · intro taken
        exact ⟨Or.inr any, fun _ _ => taken⟩
      · intro quiet
        exact quiet.2 busy large
    · intro idle
      rw [aofTriggerFlushNolock_idle sqe idle]
      rfl
  · refine ⟨iff_of_true rfl ⟨Or.inr any, ?_⟩, fun _ => rfl⟩
    intro _ enough
    exact absurd enough large
  · constructor
    · refine iff_of_false (by rw [busy]; decide) ?_
      rintro ⟨idle | some_entry, _⟩
      · rw [busy] at idle
        cases idle
      · exact any some_entry
    · exact fun _ => rfl
  · have idle : b.busy = false := Bool.eq_false_iff.mpr busy
    refine ⟨iff_of_true idle ⟨Or.inl idle, ?_⟩, fun _ => rfl⟩
    intro impossible
    exact absurd impossible busy

/-- What the server sees of the ring when it closes. -/
theorem seenAtClose_fields (ring : RingOk a) :
    (seenAtClose luck a).busy = a.busy ∧
      (seenAtClose luck a).active = a.active ∧
      ((seenAtClose luck a).busy = false ∨
          0 < (seenAtClose luck a).completions ↔
        a.submitted = none ∨ luck.finished = true) := by
  have due : a.busy = false ∨ 0 < a.completions ↔ a.submitted = none := by
    cases busy : a.busy with
    | false => exact iff_of_true (Or.inl rfl) (ring.idle busy).1
    | true =>
        obtain ⟨done, one⟩ := ring.one busy
        rw [done]
        constructor
        · rintro (impossible | some_entry)
          · cases impossible
          · exact Nat.le_antisymm one some_entry
        · intro here
          rw [here]
          exact Or.inr Nat.one_pos
  rw [seenAtClose]
  split_ifs with finished
  · rw [complete]
    cases submitted : a.submitted with
    | none =>
        rw [submitted] at due
        exact ⟨rfl, rfl, by rw [due]; simp [finished]⟩
    | some bytes =>
        exact ⟨rfl, rfl, iff_of_true (Or.inr (Nat.succ_pos _))
          (Or.inr finished)⟩
  · exact ⟨rfl, rfl, by rw [due]; simp [finished]⟩

theorem swapAtClose_idle (ring : RingOk a) :
    (swapAtClose luck a).busy = false ↔ Quiet luck a := by
  obtain ⟨busy, active, due⟩ := @seenAtClose_fields luck a ring
  obtain ⟨idle, same⟩ :=
    aofCheckCqeNonblock_idle luck.checkSqe (seenAtClose luck a)
  rw [due, busy, active] at idle
  rw [active] at same
  rw [swapAtClose]
  rw [swap_busy]
  constructor
  · rintro ⟨checked, rest⟩
    obtain ⟨done, unstarted⟩ := idle.mp checked
    rw [same checked] at rest
    refine ⟨done, rest.imp_right ?_⟩
    intro taken
    exact ⟨taken, unstarted⟩
  · rintro ⟨done, empty⟩
    have checked := idle.mpr ⟨done, by
      rcases empty with none | ⟨_, unstarted⟩
      · intro _ large
        rw [none] at large
        exact absurd large (by decide)
      · exact unstarted⟩
    rw [same checked]
    exact ⟨checked, empty.imp_right And.left⟩

end Closing

/-! ## Closing a reachable file -/

/--
After every sequence of writes, flushes and completions, closing returns with
the file complete exactly when no write is on its way that has not finished
and nothing is left to be swapped, for want of bytes or of a slot.
-/
theorem close_complete_iff (initial : Bytes) {events : List AofEvent}
    {a : Aof}
    (fits : ∀ frame ∈ writtenFrames events, frame.length ≤ aofBufSize)
    (run : (kvsPersistenceInit initial).run events = some a)
    {luck : CloseLuck} (full : luck.Full) :
    (∃ b, kvsPersistenceClose luck a = some b ∧
        b.file = initial ++ (writtenFrames events).flatten) ↔
      Quiet luck a := by
  have opened : (kvsPersistenceInit initial).fd ≠ .closed := by
    intro impossible
    cases impossible
  obtain ⟨ring, logged, _⟩ :=
    run_logged (ringOk_init initial) opened fits run
  have start : (kvsPersistenceInit initial).logged = initial := by
    rw [Aof.logged, Aof.pending, kvsPersistenceInit]
    simp
  rw [start] at logged
  rw [← logged, kvsPersistenceClose_iff full ring, swapAtClose_idle ring]

/-- Full completions, with a slot whenever one is asked for. -/
def readySlots (finished : Bool) : CloseLuck :=
  { finished := finished
    checkSqe := true
    triggerSqe := true
    finalSqe := true
    pending := .full
    flushed := .full
    final := .full
    fallback := .full }

theorem readySlots_full (finished : Bool) : (readySlots finished).Full :=
  ⟨rfl, rfl, rfl, rfl⟩

/-- A flushed and completed write is in the file when it is closed. -/
theorem close_complete_flushed :
    ∃ a, (kvsPersistenceInit [1]).run
        [.write [] [2, 3], .forceFlush true true 9] = some a ∧
      ∃ b, kvsPersistenceClose (readySlots true) a = some b ∧
        b.file = [1] ++ [2, 3] := by
  refine ⟨_, rfl, ?_⟩
  refine (@close_complete_iff [1]
    [.write [] [2, 3], .forceFlush true true 9] _ ?_ rfl _
    (readySlots_full true)).mpr ⟨Or.inr rfl, Or.inl rfl⟩
  intro frame member
  have short : frame ∈ [[2, 3]] := member
  rw [List.mem_singleton.mp short]
  decide

/-- One frame in the active buffer: closing swaps it and never returns. -/
theorem close_waits_forever :
    ∃ a, (kvsPersistenceInit []).run [.write [] [42]] = some a ∧
      (readySlots true).Full ∧
      kvsPersistenceClose (readySlots true) a = none :=
  ⟨_, rfl, readySlots_full true, by decide⟩

/-! ## Runs with results -/

/-- What happens to the append-only file, with the results of its writes. -/
inductive AofCall where
  | write (rounds : List Round) (data : Bytes)
  | flushPending (checkSqe triggerSqe : Bool) (now : Nat)
  | forceFlush (checkSqe triggerSqe : Bool) (now : Nat)
  | completion (result : Completion)
deriving DecidableEq, Repr

/-- One call. -/
def callStep (call : AofCall) (a : Aof) : Option Aof :=
  match call with
  | .write rounds data => writeWith rounds data a
  | .flushPending checkSqe triggerSqe now =>
      some (kvsPersistenceFlushPending checkSqe triggerSqe now a)
  | .forceFlush checkSqe triggerSqe now =>
      some (kvsPersistenceForceFlush checkSqe triggerSqe now a)
  | .completion result => some (complete result a)

/-- A sequence of calls. -/
def callRun : List AofCall → Aof → Option Aof
  | [], a => some a
  | call :: calls, a => (callStep call a).bind (callRun calls)

/-- The same call, for a kernel that writes everything. -/
def AofCall.event : AofCall → AofEvent
  | .write rounds data => .write (rounds.map Round.luck) data
  | .flushPending checkSqe triggerSqe now =>
      .flushPending checkSqe triggerSqe now
  | .forceFlush checkSqe triggerSqe now => .forceFlush checkSqe triggerSqe now
  | .completion _ => .kernel

/-- The bytes handed to `kvs_persistence_write`, frame by frame. -/
def callFrames (calls : List AofCall) : List Bytes :=
  writtenFrames (calls.map AofCall.event)

/-- Every write that finishes in the call has written all its bytes, and the
frame of the call fits the buffer. -/
def AofCall.Full : AofCall → Prop
  | .write rounds data =>
      (∀ round ∈ rounds, round.completion = .full) ∧
        data.length ≤ aofBufSize
  | .flushPending _ _ _ => True
  | .forceFlush _ _ _ => True
  | .completion result => result = .full

theorem waitRound_full {round : Round} (full : round.completion = .full)
    (a : Aof) :
    waitRound round a = a.waitIteration round.luck := by
  rw [waitRound, Aof.waitIteration, full, complete_full]
  simp only [takeCqe, complete_full, Aof.waitCqe]

theorem waitRounds_full {rounds : List Round}
    (full : ∀ round ∈ rounds, round.completion = .full) (len : Nat)
    (a : Aof) :
    waitRounds len rounds a = a.waitForRoom len (rounds.map Round.luck) := by
  induction rounds generalizing a with
  | nil => rfl
  | cons round later induction =>
      rw [waitRounds, List.map_cons, Aof.waitForRoom,
        waitRound_full (full round List.mem_cons_self),
        induction (fun other member =>
          full other (List.mem_cons_of_mem _ member))]

/-- A call whose writes are carried out in full is an event of the kernel that
writes everything. -/
theorem callStep_full {call : AofCall} (full : call.Full) (a : Aof) :
    callStep call a = a.step call.event := by
  cases call with
  | write rounds data =>
      rw [callStep, AofCall.event, Aof.step, writeWith, kvsPersistenceWrite,
        waitRounds_full full.1]
  | flushPending checkSqe triggerSqe now => rfl
  | forceFlush checkSqe triggerSqe now => rfl
  | completion result =>
      have whole : result = .full := full
      rw [callStep, whole, complete_full]
      rfl

theorem callRun_full {calls : List AofCall}
    (full : ∀ call ∈ calls, call.Full) (a : Aof) :
    callRun calls a = a.run (calls.map AofCall.event) := by
  induction calls generalizing a with
  | nil => rfl
  | cons call calls induction =>
      rw [callRun, List.map_cons, Aof.run,
        callStep_full (full call List.mem_cons_self)]
      congr 1
      funext next
      exact induction
        (fun other member => full other (List.mem_cons_of_mem _ member)) next

/-- Nothing that was handed over is missing: what the file lacks is pending, in
order. -/
structure NothingDropped (initial written : Bytes) (a : Aof) : Prop where
  queued : a.file ++ a.pending = initial ++ written
  ahead : a.file <+: initial ++ written

/--
In every run whose completions are all full and whose frames fit the buffer,
nothing is dropped in any state, and a file that is closed with full
completions holds everything.
-/
theorem callRun_nothing_dropped (initial : Bytes) {calls : List AofCall}
    {a : Aof} (full : ∀ call ∈ calls, call.Full)
    (run : callRun calls (kvsPersistenceInit initial) = some a) :
    NothingDropped initial (callFrames calls).flatten a ∧
      ∀ luck : CloseLuck, luck.Full → ∀ b,
        kvsPersistenceClose luck a = some b →
          b.file = initial ++ (callFrames calls).flatten := by
  rw [callRun_full full] at run
  have fits : ∀ frame ∈ callFrames calls, frame.length ≤ aofBufSize := by
    intro frame member
    rw [callFrames, writtenFrames] at member
    obtain ⟨event, inside, written⟩ := List.mem_flatMap.mp member
    obtain ⟨call, called, rfl⟩ := List.mem_map.mp inside
    have fine := full call called
    cases call with
    | write rounds data =>
        rw [List.mem_singleton.mp written]
        exact fine.2
    | flushPending checkSqe triggerSqe now => cases written
    | forceFlush checkSqe triggerSqe now => cases written
    | completion result => cases written
  have opened : (kvsPersistenceInit initial).fd ≠ .closed := by
    intro impossible
    cases impossible
  obtain ⟨ring, logged, _⟩ :=
    run_logged (ringOk_init initial) opened fits run
  have queued : a.file ++ a.pending =
      initial ++ (callFrames calls).flatten := by
    rw [← Aof.logged, logged, Aof.logged, Aof.pending, kvsPersistenceInit]
    simp [callFrames]
  refine ⟨⟨queued, ⟨_, queued⟩⟩, ?_⟩
  intro luck closing b closed
  have idle : (swapAtClose luck a).busy = false := by
    by_contra busy
    rw [kvsPersistenceClose,
      drain_busy _ _ (Bool.eq_true_of_not_eq_false busy)] at closed
    cases closed
  obtain ⟨b', returned, file⟩ :=
    (kvsPersistenceClose_iff closing ring).mpr idle
  rw [returned] at closed
  rw [← Option.some.inj closed, file, Aof.logged, queued]

/-- A write is flushed, and its full completion arrives. -/
theorem callRun_nothing_dropped_flushed :
    ∃ a, callRun [.write [] [2, 3], .forceFlush true true 9,
        .completion .full] (kvsPersistenceInit [1]) = some a ∧
      NothingDropped [1] [2, 3] a := by
  refine ⟨_, rfl, (@callRun_nothing_dropped [1]
    [.write [] [2, 3], .forceFlush true true 9, .completion .full] _ ?_
    rfl).1⟩
  intro call member
  rcases List.mem_cons.mp member with rfl | member
  · exact ⟨fun _ impossible => absurd impossible List.not_mem_nil,
      by decide⟩
  · rcases List.mem_cons.mp member with rfl | member
    · trivial
    · rw [List.mem_singleton.mp member]
      rfl

/-- The disk takes one byte of the first flush and all of the second one: the
file misses a byte in the middle. -/
theorem callRun_hole :
    ∃ a, callRun [.write [] [1, 2], .forceFlush true true 5,
        .completion (.short 1), .forceFlush true true 9, .write [] [3],
        .forceFlush true true 30, .completion .full]
        (kvsPersistenceInit []) = some a ∧
      a.file = [1, 3] ∧ a.pending = [] ∧ ¬ a.file <+: [1, 2, 3] :=
  ⟨_, rfl, by decide, by decide, by decide⟩

end Kivo.Persistence.AofClose
