import Kivo.Relay.Reassembly

/-!
# Draining the ring of the relay

`rb_send` offers the socket the bytes from the head of the ring to its tail or
to the end of the buffer, and `flush_all` calls it until the ring is empty, the
socket takes nothing, or 64 rounds are over.  Along every sequence of writes and
sends the bytes that were sent and those in the ring are together the bytes that
were written.

`rb_send` takes equal indices for an empty ring.  A ring that is exactly full
has equal indices too, and is not drained until a write enlarges it.
-/

namespace Kivo.Relay.Flushing

open Kivo.Clib.Memory
open Kivo.Clib.Ring
open Kivo.Clib.Simulation
open Kivo.Relay.Ring
open Kivo.Relay.Reassembly

/-! ## Sending -/

/-- What `send` does with the bytes that it is offered: it accepts so many of
them, it would block, or it fails otherwise. -/
inductive SendAnswer where
  | accepts (count : Nat)
  | again
  | fails
deriving DecidableEq, Repr

/-- The socket accepts bytes. -/
def SendAnswer.Willing : SendAnswer → Prop
  | .accepts count => 0 < count
  | .again => False
  | .fails => False

/-- `rb` and `running`. -/
structure Sender where
  rb : RingBuf
  running : Bool

/-- The ring after `rb_init`. -/
def Sender.fresh (buf : Nat → UInt8) (size : Nat) : Sender :=
  { rb := rbInit buf size, running := true }

/-- The bytes that `send` is called with, when it is called. -/
def RingBuf.offered (rb : RingBuf) : Option Bytes :=
  if rb.bytes = 0 then none
  else if rb.head = rb.tail then none
  else
    some ((List.range rb.available).map
      (fun index => rb.buf (rb.head + index)))

/-- What a call of `rb_send` leaves, takes and returns. -/
structure Sent where
  sender : Sender
  taken : Bytes
  result : Int

/-- `rb_send` with the answer of the socket. -/
def Sender.rbSend (sender : Sender) (answer : SendAnswer) : Sent :=
  match RingBuf.offered sender.rb with
  | none => ⟨sender, [], 0⟩
  | some _ =>
      match answer with
      | .accepts count =>
          if 0 < count then
            let sent := Ring.rbSend sender.rb count
            ⟨{ sender with rb := sent.1 }, sent.2, sent.2.length⟩
          else ⟨{ sender with running := false }, [], -1⟩
      | .again => ⟨sender, [], 0⟩
      | .fails => ⟨{ sender with running := false }, [], -1⟩

/-- What `flush_all` leaves and takes, and the rounds that it has made. -/
structure Flushed where
  sender : Sender
  taken : Bytes
  rounds : Nat

/-- The loop of `flush_all`, with the rounds that are left and those made. -/
def flushLoop (answers : Nat → SendAnswer) : Nat → Nat → Sender → Flushed
  | 0, rounds, sender => ⟨sender, [], rounds⟩
  | left + 1, rounds, sender =>
      if 0 < sender.rb.bytes ∧ sender.running = true then
        let sent := sender.rbSend (answers rounds)
        if sent.result ≤ 0 then ⟨sent.sender, sent.taken, rounds + 1⟩
        else
          let rest := flushLoop answers left (rounds + 1) sent.sender
          { rest with taken := sent.taken ++ rest.taken }
      else ⟨sender, [], rounds⟩

/-- `max_rounds`. -/
def maxRounds : Nat :=
  64

/-- `flush_all`; the answers are those of the socket to its rounds. -/
def flushAll (answers : Nat → SendAnswer) (sender : Sender) : Flushed :=
  flushLoop answers maxRounds 0 sender

/-! ## Sequences of calls -/

/-- A call of `rb_write` with what the memory holds that `malloc` hands out, or
a call of `rb_send` for which the socket accepts so many bytes, none when it
would block. -/
inductive RingCall where
  | write (memory : Nat → Nat → UInt8) (data : Bytes)
  | send (accepted : Nat)

/-- The bytes that a call writes. -/
def RingCall.data : RingCall → Bytes
  | .write _ data => data
  | .send _ => []

/-- One call, with the bytes that are sent. -/
def ringStep (sender : Sender) : RingCall → Sender × Bytes
  | .write memory data =>
      ({ sender with
          rb := (rbWrite (fun size => some (memory size)) sender.rb
            data).getD sender.rb }, [])
  | .send accepted =>
      let sent := sender.rbSend
        (if accepted = 0 then .again else .accepts accepted)
      (sent.sender, sent.taken)

/-! ## What is offered -/

section Offer

variable {rb : RingBuf} (inStep : rb.InStep)

include inStep

theorem tail_lt : rb.tail < rb.size := by
  rw [inStep.tail]
  exact Nat.mod_lt _ (Nat.zero_lt_of_lt inStep.head)

/-- The indices are equal in an empty ring and in a full one. -/
theorem head_eq_tail_iff :
    rb.head = rb.tail ↔ rb.bytes = 0 ∨ rb.bytes = rb.size := by
  obtain ⟨head, bytes, tail⟩ := inStep
  rw [tail]
  rcases Nat.lt_or_ge (rb.head + rb.bytes) rb.size with straight | wrapped
  · rw [Nat.mod_eq_of_lt straight]
    omega
  · rw [Nat.mod_eq_sub_mod wrapped, Nat.mod_eq_of_lt (by omega)]
    omega

theorem head_ne_tail (pending : 0 < rb.bytes) (free : rb.bytes < rb.size) :
    rb.head ≠ rb.tail := by
  intro same
  rcases (head_eq_tail_iff inStep).mp same with none | full
  · exact absurd none (Nat.ne_of_gt pending)
  · exact absurd full (Nat.ne_of_lt free)

/-- Unless the ring is full, something is available. -/
theorem available_pos (pending : 0 < rb.bytes) (free : rb.bytes < rb.size) :
    0 < rb.available := by
  have apart := head_ne_tail inStep pending free
  have headSmall := inStep.head
  rw [RingBuf.available]
  split_ifs <;> omega

/-- Unless the ring is full, its oldest bytes are offered. -/
theorem offered_of_free (pending : 0 < rb.bytes) (free : rb.bytes < rb.size) :
    RingBuf.offered rb = some (rb.contents.take rb.available) := by
  rw [RingBuf.offered, if_neg (Nat.ne_of_gt pending),
    if_neg (head_ne_tail inStep pending free), inStep.front (le_refl _)]

/-- A full ring offers nothing. -/
theorem offered_of_full (full : rb.bytes = rb.size) :
    RingBuf.offered rb = none := by
  have same : rb.head = rb.tail :=
    (head_eq_tail_iff inStep).mpr (Or.inr full)
  rw [RingBuf.offered, if_pos same, ite_self]

end Offer

/-! ## What a call keeps -/

/-- The indices of the ring are in step, and the relay is not told to stop. -/
structure Ready (sender : Sender) : Prop where
  inStep : sender.rb.InStep
  running : sender.running = true

theorem ready_fresh (buf : Nat → UInt8) {size : Nat} (positive : 0 < size) :
    Ready (Sender.fresh buf size) :=
  ⟨rbInit_inStep buf positive, rfl⟩

section Calls

variable {sender : Sender}

/-- A ring that offers nothing is left as it is. -/
theorem rbSend_of_none (nothing : RingBuf.offered sender.rb = none)
    (answer : SendAnswer) : sender.rbSend answer = ⟨sender, [], 0⟩ := by
  unfold Sender.rbSend
  rw [nothing]

/-- A socket that would block leaves the ring as it is. -/
theorem rbSend_again (sender : Sender) :
    sender.rbSend .again = ⟨sender, [], 0⟩ := by
  rw [Sender.rbSend]
  split <;> rfl

/-- A socket that accepts bytes takes them from the front. -/
theorem rbSend_accepts {slice : Bytes}
    (offer : RingBuf.offered sender.rb = some slice) {count : Nat}
    (willing : 0 < count) :
    sender.rbSend (.accepts count) =
      ⟨{ sender with rb := (Ring.rbSend sender.rb count).1 },
        (Ring.rbSend sender.rb count).2,
        (Ring.rbSend sender.rb count).2.length⟩ := by
  rw [Sender.rbSend, offer]
  exact if_pos willing

variable (ready : Ready sender)

include ready

/-- A send that may be partial keeps the bytes in order. -/
theorem rbSend_partial (accepted : Nat) :
    Ready (ringStep sender (.send accepted)).1 ∧
      (ringStep sender (.send accepted)).2 ++
          (ringStep sender (.send accepted)).1.rb.contents =
        sender.rb.contents := by
  rw [ringStep]
  by_cases blocked : accepted = 0
  · rw [if_pos blocked, rbSend_again]
    exact ⟨ready, rfl⟩
  · rw [if_neg blocked]
    cases offer : RingBuf.offered sender.rb with
    | none =>
        rw [rbSend_of_none offer]
        exact ⟨ready, rfl⟩
    | some slice =>
        rw [rbSend_accepts offer (Nat.pos_of_ne_zero blocked)]
        obtain ⟨inStep, queue⟩ := rbSend_spec accepted ready.inStep
        exact ⟨⟨inStep, ready.running⟩, queue⟩

/-- One call keeps the bytes in order. -/
theorem ringStep_keeps (call : RingCall) :
    Ready (ringStep sender call).1 ∧
      (ringStep sender call).2 ++ (ringStep sender call).1.rb.contents =
        sender.rb.contents ++ call.data := by
  cases call with
  | send accepted =>
      rw [RingCall.data, List.append_nil]
      exact rbSend_partial ready accepted
  | write memory data =>
      obtain ⟨next, written⟩ :=
        @rbWrite_granted (fun size => some (memory size)) sender.rb data
          (fun size => Option.some_ne_none _)
      obtain ⟨inStep, appended⟩ := rbWrite_spec ready.inStep written
      rw [ringStep, written, Option.getD_some]
      exact ⟨⟨inStep, ready.running⟩, appended⟩

/-- A sequence of calls keeps the bytes in order. -/
theorem ringRun_keeps (calls : List RingCall) :
    Ready (run ringStep sender calls).1 ∧
      (run ringStep sender calls).2.flatten ++
          (run ringStep sender calls).1.rb.contents =
        sender.rb.contents ++ (calls.map RingCall.data).flatten := by
  induction calls generalizing sender with
  | nil => exact ⟨ready, (List.append_nil _).symm⟩
  | cons call rest induction =>
      obtain ⟨next, first⟩ := ringStep_keeps ready call
      obtain ⟨last, others⟩ := induction next
      refine ⟨last, ?_⟩
      rw [run, List.flatten_cons, List.append_assoc, others,
        ← List.append_assoc, first, List.map_cons, List.flatten_cons,
        List.append_assoc]

end Calls

/-- What holds of the ring after any calls: the bytes that were sent and those
in the ring are those that were written, and the indices lie in the buffer. -/
structure Lossless (calls : List RingCall) (sent : List Bytes)
    (rb : RingBuf) : Prop where
  queue : sent.flatten ++ rb.contents = (calls.map RingCall.data).flatten
  bytes : rb.bytes ≤ rb.size
  head : rb.head < rb.size
  tail : rb.tail < rb.size

/--
For every sequence of writes of any data and of sends for which the socket
accepts any number of the offered bytes or would block, the ring is a queue
that loses nothing: the bytes sent so far, followed by the bytes in the ring
from its head on, are the bytes that were written, across the end of the buffer
and across its growth.
-/
theorem ring_lossless {size : Nat} (positive : 0 < size) (buf : Nat → UInt8)
    (calls : List RingCall) :
    Lossless calls (run ringStep (Sender.fresh buf size) calls).2
      (run ringStep (Sender.fresh buf size) calls).1.rb := by
  obtain ⟨ready, queue⟩ := ringRun_keeps (ready_fresh buf positive) calls
  refine ⟨?_, ready.inStep.bytes, ready.inStep.head, tail_lt ready.inStep⟩
  rw [queue]
  rfl

/-- Three bytes into a ring of four, two out, two in across the end, one out,
and three more, for which the ring grows. -/
def wrappingCalls : List RingCall :=
  [.write (fun _ _ => 0) [1, 2, 3], .send 2, .write (fun _ _ => 0) [4, 5],
    .send 1, .write (fun _ _ => 0) [6, 7, 8], .send 0, .send 9]

theorem ring_lossless_wrapping :
    (run ringStep (Sender.fresh (fun _ => 0) 4) wrappingCalls).2 =
        [[], [1, 2], [], [3], [], [], [4, 5, 6, 7, 8]] ∧
      Lossless wrappingCalls
        (run ringStep (Sender.fresh (fun _ => 0) 4) wrappingCalls).2
        (run ringStep (Sender.fresh (fun _ => 0) 4) wrappingCalls).1.rb :=
  ⟨by decide +kernel, ring_lossless (by decide) (fun _ => 0) wrappingCalls⟩

/-! ## Draining -/

/-- `rb_send` offers a slice that is not empty and starts at the oldest byte. -/
def OffersOldest (rb : RingBuf) : Prop :=
  ∃ slice, RingBuf.offered rb = some slice ∧ slice ≠ [] ∧
    slice <+: rb.contents

/-- `flush_all` stops with bytes in the ring only when its rounds are over or
the socket was not willing in the last one. -/
def FlushesOn (sender : Sender) : Prop :=
  ∀ answers : Nat → SendAnswer,
    0 < (flushAll answers sender).sender.rb.bytes →
      (flushAll answers sender).rounds = maxRounds ∨
        ∃ last, (flushAll answers sender).rounds = last + 1 ∧
          ¬ (answers last).Willing

/-- A socket that is not willing ends the rounds. -/
theorem rbSend_unwilling (sender : Sender) {answer : SendAnswer}
    (unwilling : ¬ answer.Willing) : (sender.rbSend answer).result ≤ 0 := by
  have negative : (-1 : Int) ≤ 0 := by decide
  cases offer : RingBuf.offered sender.rb with
  | none => rw [rbSend_of_none offer]
  | some slice =>
      cases answer with
      | again => rw [rbSend_again]
      | fails =>
          rw [Sender.rbSend, offer]
          exact negative
      | accepts count =>
          obtain rfl : count = 0 := Nat.eq_zero_of_not_pos unwilling
          rw [Sender.rbSend, offer]
          exact negative

section Draining

variable {sender : Sender} (ready : Ready sender)

include ready

/-- A round with a willing socket. -/
theorem rbSend_willing (pending : 0 < sender.rb.bytes)
    (free : sender.rb.bytes < sender.rb.size) {answer : SendAnswer}
    (willing : answer.Willing) :
    0 < (sender.rbSend answer).result ∧
      Ready (sender.rbSend answer).sender ∧
        (sender.rbSend answer).sender.rb.bytes <
          (sender.rbSend answer).sender.rb.size := by
  have offer := offered_of_free ready.inStep pending free
  have available := available_pos ready.inStep pending free
  cases answer with
  | again => exact absurd willing not_false
  | fails => exact absurd willing not_false
  | accepts count =>
      have positive : 0 < count := willing
      rw [rbSend_accepts offer positive]
      refine ⟨?_, ⟨(rbSend_spec count ready.inStep).1, ready.running⟩, ?_⟩
      · dsimp only [Ring.rbSend]
        rw [List.length_map, List.length_range]
        omega
      · exact (Nat.sub_le _ _).trans_lt free

/-- The loop drains a ring that is not full. -/
theorem flushLoop_stops (answers : Nat → SendAnswer) (left rounds : Nat)
    (free : sender.rb.bytes < sender.rb.size)
    (stopped : 0 < (flushLoop answers left rounds sender).sender.rb.bytes) :
    (flushLoop answers left rounds sender).rounds = rounds + left ∨
      ∃ last, (flushLoop answers left rounds sender).rounds = last + 1 ∧
        ¬ (answers last).Willing := by
  induction left generalizing rounds sender with
  | zero => exact Or.inl rfl
  | succ left induction =>
      rw [flushLoop] at stopped ⊢
      split_ifs at stopped ⊢ with pending
      · dsimp only at stopped ⊢
        by_cases willing : (answers rounds).Willing
        · obtain ⟨sent, next, room⟩ :=
            rbSend_willing ready pending.1 free willing
          rw [if_neg (not_le.mpr sent)] at stopped ⊢
          rw [← Nat.add_assoc, Nat.add_right_comm]
          exact induction next (rounds + 1) room stopped
        · rw [if_pos (rbSend_unwilling sender willing)]
          exact Or.inr ⟨rounds, rfl, willing⟩
      · exact absurd ⟨stopped, ready.running⟩ pending

/-- A full ring is left as it is, however willing the socket is. -/
theorem flushAll_of_full (full : sender.rb.bytes = sender.rb.size)
    (answers : Nat → SendAnswer) :
    flushAll answers sender = ⟨sender, [], 1⟩ := by
  have pending : 0 < sender.rb.bytes ∧ sender.running = true :=
    ⟨full ▸ Nat.zero_lt_of_lt ready.inStep.head, ready.running⟩
  rw [flushAll, maxRounds, flushLoop, if_pos pending]
  dsimp only
  rw [rbSend_of_none (offered_of_full ready.inStep full), if_pos (le_refl 0)]

/-- A ring with bytes in it is drained exactly when it is not full. -/
theorem drained_iff (pending : 0 < sender.rb.bytes) :
    OffersOldest sender.rb ∧ FlushesOn sender ↔
      sender.rb.bytes ≠ sender.rb.size := by
  constructor
  · rintro ⟨⟨slice, offer, -, -⟩, -⟩ full
    rw [offered_of_full ready.inStep full] at offer
    cases offer
  · intro apart
    have free := lt_of_le_of_ne ready.inStep.bytes apart
    refine ⟨⟨_, offered_of_free ready.inStep pending free, ?_,
      List.take_prefix _ _⟩, ?_⟩
    · have available := available_pos ready.inStep pending free
      intro none
      have nothing := congrArg List.length none
      rw [List.length_take, RingBuf.contents, ringContents_length,
        List.length_nil] at nothing
      omega
    · intro answers stopped
      have stops := flushLoop_stops ready answers maxRounds 0 free stopped
      rwa [Nat.zero_add] at stops

end Draining

/--
In every state that writes and partial sends lead to, with bytes in the ring:
`rb_send` offers a slice that is not empty and starts at the oldest byte, and
`flush_all` goes on while the socket is willing, exactly when the ring is not
full to the last byte.
-/
theorem ring_drained_iff {size : Nat} (positive : 0 < size)
    (buf : Nat → UInt8) (calls : List RingCall) {sender : Sender}
    (reached : (run ringStep (Sender.fresh buf size) calls).1 = sender)
    (pending : 0 < sender.rb.bytes) :
    OffersOldest sender.rb ∧ FlushesOn sender ↔
      sender.rb.bytes ≠ sender.rb.size := by
  have ready := (ringRun_keeps (ready_fresh buf positive) calls).1
  rw [reached] at ready
  exact drained_iff ready pending

/-- Bytes on both sides of the end of the buffer. -/
theorem ring_drained_wrapped :
    OffersOldest
        (run ringStep (Sender.fresh (fun _ => 0) 4)
          (wrappingCalls.take 3)).1.rb ∧
      FlushesOn
        (run ringStep (Sender.fresh (fun _ => 0) 4)
          (wrappingCalls.take 3)).1 :=
  (ring_drained_iff (by decide) (fun _ => 0) (wrappingCalls.take 3) rfl
    (by decide +kernel)).mpr (by decide +kernel)

/-! ## A ring that fills up -/

/-- A write that fits leaves the buffer as large as it was. -/
theorem rbWrite_fits (malloc : Nat → Option (Nat → UInt8)) {rb : RingBuf}
    {data : Bytes} (fits : rb.bytes + data.length ≤ rb.size) :
    ∃ next, rbWrite malloc rb data = some next ∧ next.size = rb.size ∧
      next.bytes = rb.bytes + data.length := by
  refine ⟨store rb data, ?_, ?_, ?_⟩
  · rw [rbWrite, grow, if_neg (Nat.not_lt.mpr fits)]
    rfl
  · rw [store]
    split_ifs <;> rfl
  · rw [store]
    split_ifs <;> rfl

theorem writes_fit (buf : Nat → UInt8) {size : Nat}
    (memory : Nat → Nat → UInt8) (data : Bytes) (count : Nat)
    (fits : count * data.length ≤ size) :
    (run ringStep (Sender.fresh buf size)
        (List.replicate count (.write memory data))).1.rb.size = size ∧
      (run ringStep (Sender.fresh buf size)
        (List.replicate count (.write memory data))).1.rb.bytes =
          count * data.length := by
  induction count with
  | zero => exact ⟨rfl, (Nat.zero_mul _).symm⟩
  | succ count induction =>
      rw [Nat.succ_mul] at fits ⊢
      obtain ⟨same, filled⟩ := induction (by omega)
      obtain ⟨next, written, size', bytes⟩ :=
        @rbWrite_fits (fun size => some (memory size))
          (run ringStep (Sender.fresh buf size)
            (List.replicate count (.write memory data))).1.rb data
          (by rw [same, filled]; exact fits)
      rw [List.replicate_succ', run_append]
      dsimp only [run, ringStep]
      rw [written, Option.getD_some, size', bytes, same, filled]
      exact ⟨rfl, rfl⟩

/-- The relay before its first payload, with a buffer of zeros. -/
def relayRing : Sender :=
  Sender.fresh (fun _ => 0) ringSize

/-- So many payloads of the largest size arrive while the socket blocks. -/
def payloads (count : Nat) : List RingCall :=
  List.replicate count
    (.write (fun _ _ => 0) (List.replicate maxPayloadSize 0))

/-- After 65536 payloads the ring is full, and `flush_all` gives up without
having asked the socket. -/
theorem ring_stalls :
    0 < (run ringStep relayRing (payloads 65536)).1.rb.bytes ∧
      RingBuf.offered (run ringStep relayRing (payloads 65536)).1.rb = none ∧
      (∀ answers, flushAll answers
          (run ringStep relayRing (payloads 65536)).1 =
        ⟨(run ringStep relayRing (payloads 65536)).1, [], 1⟩) ∧
      ¬ (OffersOldest (run ringStep relayRing (payloads 65536)).1.rb ∧
        FlushesOn (run ringStep relayRing (payloads 65536)).1) := by
  have length : 65536 * (List.replicate maxPayloadSize (0 : UInt8)).length =
      ringSize := by
    rw [List.length_replicate, maxPayloadSize, ringSize]
  have begun : Ready relayRing :=
    ready_fresh (fun _ => 0) (by decide)
  have ready := (ringRun_keeps begun (payloads 65536)).1
  have fills := writes_fit (fun _ => 0) (fun _ _ => 0)
    (List.replicate maxPayloadSize 0) 65536 length.le
  rw [← relayRing, ← payloads, length] at fills
  generalize (run ringStep relayRing (payloads 65536)).1 = sender at *
  obtain ⟨size, bytes⟩ := fills
  have full : sender.rb.bytes = sender.rb.size := bytes.trans size.symm
  have pending : 0 < sender.rb.bytes := bytes ▸ (by decide : 0 < ringSize)
  exact ⟨pending, offered_of_full ready.inStep full,
    flushAll_of_full ready full,
    fun drained => (drained_iff ready pending).mp drained full⟩

end Kivo.Relay.Flushing
