import Kivo.Clib.Serial
import Kivo.Clib.Simulation
import Kivo.Relay.Ring
import Kivo.Relay.Segments

/-!
# The reassembly of the relay

The relay sees the segments of a TCP connection as a filter in the kernel copies
them, so in any order, and writes the stream behind the first of them into the
ring for the slave.  Positions are 32-bit sequence numbers, and segments that
come early wait in a pool of `OOO_MAX` slots.

Within half of the sequence space the relay is an assembly over natural
positions (`processTcpPayload_refines`).  So the ring never has anything but the
stream; whether every byte that has arrived also gets there depends on how the
segments overlap.
-/

namespace Kivo.Relay.Reassembly

open Kivo.Clib.Memory
open Kivo.Clib.Serial
open Kivo.Clib.Simulation
open Kivo.Relay.Ring
open Kivo.Relay.Segments

/-! ## The code -/

/-- `MAX_PAYLOAD_SIZE`. -/
def maxPayloadSize : Nat :=
  1024

/-- `OOO_MAX`. -/
def oooMax : Nat :=
  128

/-- `RING_SIZE`. -/
def ringSize : Nat :=
  64 * 1024 * 1024

/-- `struct ooo_node`; the data are the `len` bytes that were copied. -/
structure OooNode where
  seq : UInt32
  used : Bool
  data : Bytes
deriving DecidableEq, Repr

/-- A slot of a pool that was set to zero. -/
def OooNode.zero : OooNode :=
  { seq := 0, used := false, data := [] }

/-- The globals of the relay. -/
structure RelayState where
  rb : RingBuf
  oooPool : List OooNode
  expectedSeq : UInt32
  seqInitialized : Bool

/-- The relay before the first event. -/
def RelayState.initial (buf : Nat → UInt8) : RelayState :=
  { rb := rbInit buf ringSize
    oooPool := List.replicate oooMax OooNode.zero
    expectedSeq := 0
    seqInitialized := false }

/-- A call of `rb_write` whose result is ignored. -/
def RelayState.write (malloc : Nat → Option (Nat → UInt8)) (relay : RelayState)
    (data : Bytes) : RelayState :=
  { relay with rb := (rbWrite malloc relay.rb data).getD relay.rb }

/-- `ooo_find_seq`. -/
def oooFindSeq (pool : List OooNode) (seq : UInt32) : Option Nat :=
  pool.findIdx? (fun node => node.used && node.seq == seq)

/-- `ooo_find_free`. -/
def oooFindFree (pool : List OooNode) : Option Nat :=
  pool.findIdx? (fun node => !node.used)

/-- `ooo_insert`. -/
def oooInsert (relay : RelayState) (seq : UInt32) (data : Bytes) : RelayState :=
  match oooFindSeq relay.oooPool seq with
  | some _ => relay
  | none =>
      match oooFindFree relay.oooPool with
      | none =>
          { relay with
            oooPool := List.replicate relay.oooPool.length OooNode.zero
            seqInitialized := false }
      | some idx =>
          { relay with
            oooPool := relay.oooPool.set idx
              { seq := seq, used := true, data := data } }

/-- The loop of `ooo_flush`: the slot that it looks for is the one that
`ooo_find_seq` finds. -/
def oooFlushLoop (malloc : Nat → Option (Nat → UInt8)) :
    Nat → RelayState → RelayState
  | 0, relay => relay
  | fuel + 1, relay =>
      match oooFindSeq relay.oooPool relay.expectedSeq with
      | none => relay
      | some i =>
          let node := relay.oooPool.getD i OooNode.zero
          oooFlushLoop malloc fuel
            { relay.write malloc node.data with
              expectedSeq := relay.expectedSeq + UInt32.ofNat node.data.length
              oooPool := relay.oooPool.set i { node with used := false } }

/-- `ooo_flush`: each round frees a slot. -/
def oooFlush (malloc : Nat → Option (Nat → UInt8)) (relay : RelayState) : RelayState :=
  oooFlushLoop malloc relay.oooPool.length relay

/-- The first segment fixes the sequence number that is expected. -/
def initSeq (relay : RelayState) (seq : UInt32) : RelayState :=
  if relay.seqInitialized then relay
  else { relay with expectedSeq := seq, seqInitialized := true }

/-- `process_tcp_payload`, with `ENABLE_REORDER`. -/
def processTcpPayload (malloc : Nat → Option (Nat → UInt8)) (relay : RelayState)
    (seq : UInt32) (data : Bytes) : RelayState :=
  let relay := initSeq relay seq
  let len := UInt32.ofNat data.length
  if seq = relay.expectedSeq then
    oooFlush malloc
      { relay.write malloc data with expectedSeq := relay.expectedSeq + len }
  else if serialGt seq relay.expectedSeq then
    oooInsert relay seq data
  else
    let stop := seq + len
    if serialGt stop relay.expectedSeq then
      let offset := relay.expectedSeq - seq
      let newLen := stop - relay.expectedSeq
      oooFlush malloc
        { relay.write malloc ((data.drop offset.toNat).take newLen.toNat) with
          expectedSeq := relay.expectedSeq + newLen }
    else relay

/-- What happens to the relay: a payload arrives, or `rb_send` is called and the
socket accepts so many bytes. -/
inductive RelayEvent where
  | payload (seq : UInt32) (data : Bytes)
  | send (accepted : Nat)
deriving DecidableEq, Repr

/-- One event, with the bytes that go to the slave. -/
def RelayState.step (malloc : Nat → Option (Nat → UInt8)) (relay : RelayState) :
    RelayEvent → RelayState × Bytes
  | .payload seq data => (processTcpPayload malloc relay seq data, [])
  | .send accepted =>
      ({ relay with rb := (rbSend relay.rb accepted).1 },
        (rbSend relay.rb accepted).2)

/-! ## Positions -/

/-- The last 32 bits of a position, in a stream with this initial number. -/
def serial (isn position : Nat) : UInt32 :=
  UInt32.ofNat (isn + position)

/-- The bytes of a stream between two positions. -/
def between (stream : Bytes) (low high : Nat) : Bytes :=
  (stream.drop low).take (high - low)

/-- The bytes of a segment. -/
def payloadOf (stream : Bytes) (segment : Segment) : Bytes :=
  between stream segment.start segment.stop

theorem serial_add (isn position length : Nat) :
    serial isn position + UInt32.ofNat length =
      serial isn (position + length) := by
  rw [serial, serial, ← UInt32.ofNat_add, Nat.add_assoc]

theorem serial_inj_near {isn left right : Nat}
    (leftNear : left < right + 2 ^ 32) (rightNear : right < left + 2 ^ 32) :
    serial isn left = serial isn right ↔ left = right := by
  rw [serial, serial, ofNat_inj_near (by omega) (by omega)]
  omega

theorem serialGt_serial {isn left right : Nat}
    (leftNear : left < right + 2 ^ 31) (rightNear : right < left + 2 ^ 31) :
    serialGt (serial isn left) (serial isn right) = true ↔ right < left := by
  rw [serial, serial, serialGt_ofNat (by omega) (by omega)]
  omega

theorem serial_sub {isn low high : Nat} (ordered : low ≤ high)
    (near : high < low + 2 ^ 32) :
    (serial isn high - serial isn low).toNat = high - low := by
  rw [serial, serial, toNat_ofNat_sub (by omega) (by omega)]
  omega

theorem between_self (stream : Bytes) (position : Nat) :
    between stream position position = [] := by
  rw [between, Nat.sub_self, List.take_zero]

theorem between_append {stream : Bytes} {low middle high : Nat}
    (lowLe : low ≤ middle) (highGe : middle ≤ high) :
    between stream low middle ++ between stream middle high =
      between stream low high := by
  have split : high - low = (middle - low) + (high - middle) := by omega
  rw [between, between, between, split, List.take_add, List.drop_drop]
  congr 3
  omega

theorem between_length {stream : Bytes} {low high : Nat}
    (inside : high ≤ stream.length) :
    (between stream low high).length = high - low := by
  rw [between, List.length_take, List.length_drop]
  omega

/-- The part of a payload from a later position on. -/
theorem between_drop_take {stream : Bytes} {low middle high : Nat}
    (lowLe : low ≤ middle) :
    ((between stream low high).drop (middle - low)).take (high - middle) =
      between stream middle high := by
  rw [between, between, List.drop_take, List.drop_drop, List.take_take]
  congr 1
  · omega
  · congr 1
    omega

/-! ## The relay as an assembly -/

/-- A slot of the pool and the segment that it holds. -/
def Stands (isn : Nat) (stream : Bytes) (node : OooNode) :
    Option Segment → Prop
  | none => node.used = false
  | some segment =>
      node.used = true ∧ node.seq = serial isn segment.start ∧
        node.data = payloadOf stream segment ∧ segment.stop ≤ stream.length

/-- The pool holds these segments. -/
abbrev Pools (isn : Nat) (stream : Bytes) :
    List OooNode → List (Option Segment) → Prop :=
  List.Forall₂ (Stands isn stream)

theorem forall₂_set {α β : Type} {related : α → β → Prop} {left : List α}
    {right : List β} (all : List.Forall₂ related left right) (index : Nat)
    {leftValue : α} {rightValue : β} (new : related leftValue rightValue) :
    List.Forall₂ related (left.set index leftValue)
      (right.set index rightValue) := by
  induction all generalizing index with
  | nil => exact List.Forall₂.nil
  | cons first _ ih =>
      cases index with
      | zero => exact List.Forall₂.cons new (by assumption)
      | succ index => exact List.Forall₂.cons first (ih index)

/-- Slots that look alike are found in the same place. -/
theorem forall₂_findIdx? {α β : Type} {related : α → β → Prop}
    {left : List α} {right : List β} {leftTest : α → Bool}
    {rightTest : β → Bool} (all : List.Forall₂ related left right)
    (alike : ∀ leftValue, ∀ rightValue ∈ right,
      related leftValue rightValue →
        leftTest leftValue = rightTest rightValue) :
    left.findIdx? leftTest = right.findIdx? rightTest := by
  induction all with
  | nil => rfl
  | cons first _ ih =>
      rw [List.findIdx?_cons, List.findIdx?_cons,
        alike _ _ List.mem_cons_self first,
        ih (fun leftValue rightValue member =>
          alike leftValue rightValue (List.mem_cons_of_mem _ member))]

/-- All segments of the pool are so close to a position that their serial
numbers tell them apart from it. -/
def Distinct (position : Nat) (held : List (Option Segment)) : Prop :=
  ∀ segment, some segment ∈ held →
    segment.start < position + 2 ^ 32 ∧ position < segment.start + 2 ^ 32

theorem oooFindSeq_pools {isn : Nat} {stream : Bytes} {pool : List OooNode}
    {held : List (Option Segment)} {position : Nat}
    (pools : Pools isn stream pool held)
    (distinct : Distinct position held) :
    oooFindSeq pool (serial isn position) =
      held.findIdx? (startsAt position) := by
  apply forall₂_findIdx? pools
  intro node slot member stands
  cases slot with
  | none =>
      rw [show node.used = false from stands]
      rfl
  | some segment =>
      obtain ⟨used, numbered, -, -⟩ := stands
      obtain ⟨above, below⟩ := distinct segment member
      rw [used, numbered, Bool.true_and, startsAt, Option.any_some,
        Bool.eq_iff_iff, beq_iff_eq, beq_iff_eq, serial_inj_near above below]

theorem oooFindFree_pools {isn : Nat} {stream : Bytes} {pool : List OooNode}
    {held : List (Option Segment)} (pools : Pools isn stream pool held) :
    oooFindFree pool = held.findIdx? Option.isNone := by
  apply forall₂_findIdx? pools
  intro node slot _ stands
  cases slot with
  | none =>
      rw [show node.used = false from stands]
      rfl
  | some segment =>
      rw [stands.1]
      rfl

/-- What has been written is the stream between two positions, and the pool
holds these segments. -/
structure Reached (isn : Nat) (stream : Bytes) (first : Nat)
    (relay : RelayState) (sent : Bytes) (cursor : Nat)
    (held : List (Option Segment)) : Prop where
  pools : Pools isn stream relay.oooPool held
  inStep : relay.rb.InStep
  expected : relay.expectedSeq = serial isn cursor
  written : sent ++ relay.rb.contents = between stream first cursor
  after : first ≤ cursor
  inside : cursor ≤ stream.length

/-- Writing the next bytes of the stream. -/
theorem Reached.write {isn first cursor position : Nat} {stream sent : Bytes}
    {relay : RelayState} {held : List (Option Segment)}
    {malloc : Nat → Option (Nat → UInt8)}
    (reached : Reached isn stream first relay sent cursor held)
    (grants : ∀ size, malloc size ≠ none) (ordered : cursor ≤ position)
    (inside : position ≤ stream.length) {advanced : UInt32}
    (number : advanced = serial isn position) :
    Reached isn stream first
      { relay.write malloc (between stream cursor position) with
        expectedSeq := advanced } sent position held := by
  obtain ⟨next, written⟩ :=
    rbWrite_granted relay.rb (between stream cursor position) grants
  obtain ⟨inStep, appended⟩ := rbWrite_spec reached.inStep written
  refine ⟨reached.pools, ?_, number, ?_, reached.after.trans ordered, inside⟩
  · show ((rbWrite malloc relay.rb _).getD relay.rb).InStep
    rwa [written]
  · show sent ++ ((rbWrite malloc relay.rb _).getD relay.rb).contents = _
    rw [written, Option.getD_some, appended, ← List.append_assoc,
      reached.written, between_append reached.after ordered]

/-- Positions that the flush can reach from here stay within reach of every
segment in the pool. -/
structure Window (base cursor : Nat) (held : List (Option Segment)) :
    Prop where
  low : base ≤ cursor
  high : cursor < base + 2 ^ 31
  held : ∀ segment, some segment ∈ held →
    base < segment.start + 2 ^ 31 ∧ segment.stop < base + 2 ^ 31

theorem Window.distinct {base cursor : Nat} {held : List (Option Segment)}
    (window : Window base cursor held) : Distinct cursor held := by
  intro segment member
  have low := window.low
  have high := window.high
  have near := window.held segment member
  simp only [Segment.stop] at near
  omega

/-- The flush takes up what the assembly takes up. -/
theorem oooFlushLoop_refines {isn first : Nat} {stream sent : Bytes}
    {malloc : Nat → Option (Nat → UInt8)}
    (grants : ∀ size, malloc size ≠ none) {base : Nat} :
    ∀ fuel cursor held (relay : RelayState),
      Reached isn stream first relay sent cursor held →
        Window base cursor held →
          (oooFlushLoop malloc fuel relay).seqInitialized =
              relay.seqInitialized ∧
            Reached isn stream first (oooFlushLoop malloc fuel relay) sent
              (advance fuel cursor held).1 (advance fuel cursor held).2
  | 0, cursor, held, relay, reached, window => ⟨rfl, reached⟩
  | fuel + 1, cursor, held, relay, reached, window => by
      have same := oooFindSeq_pools reached.pools window.distinct
      rw [← reached.expected] at same
      cases found : held.findIdx? (startsAt cursor) with
      | none =>
          rw [oooFlushLoop, same, found, advance, found]
          exact ⟨rfl, reached⟩
      | some index =>
          obtain ⟨segment, slot, rfl⟩ := held_at_found found
          obtain ⟨bound, value⟩ := List.getElem?_eq_some_iff.mp slot
          have bound' : index < relay.oooPool.length := by
            rw [reached.pools.length_eq]
            exact bound
          obtain ⟨used, -, data, inside⟩ :
              Stands isn stream relay.oooPool[index] (some segment) := by
            rw [← value]
            exact reached.pools.get bound' bound
          have node : relay.oooPool.getD index OooNode.zero =
              relay.oooPool[index] := by
            rw [List.getD_eq_getElem?_getD, List.getElem?_eq_getElem bound',
              Option.getD_some]
          have number : relay.expectedSeq +
              UInt32.ofNat (payloadOf stream segment).length =
                serial isn segment.stop := by
            rw [payloadOf, between_length inside, reached.expected, serial_add]
            congr 1
            exact Nat.add_sub_cancel' (Nat.le_add_right _ _)
          have moved := reached.write grants
            (Nat.le_add_right segment.start segment.length) inside number
          have narrowed : Window base segment.stop (held.set index none) := by
            obtain ⟨-, near⟩ := window.held segment (List.mem_of_getElem? slot)
            exact
              ⟨window.low.trans (Nat.le_add_right _ _), near,
                fun other member =>
                  window.held other (mem_of_mem_set_none member)⟩
          rw [advance_succ_of_found fuel found slot, oooFlushLoop, same, found]
          simp only [node, data]
          exact oooFlushLoop_refines grants fuel segment.stop
            (held.set index none) _
            { moved with pools := forall₂_set reached.pools index rfl } narrowed

/-- The relay is an assembly that has written the stream up to its cursor. -/
structure Refines (isn : Nat) (stream : Bytes) (first : Nat)
    (relay : RelayState) (sent : Bytes) (assembly : Assembly) : Prop where
  initialized : relay.seqInitialized = assembly.started
  fresh : assembly.started = false →
    Pools isn stream relay.oooPool assembly.held ∧ relay.rb.InStep ∧
      sent ++ relay.rb.contents = []
  reached : assembly.started = true →
    Reached isn stream first relay sent assembly.cursor assembly.held

/-- The arriving segment and those in the pool lie within half of the sequence
space around a position. -/
structure Near (position : Nat) (segment : Segment)
    (held : List (Option Segment)) : Prop where
  arriving : position < segment.start + 2 ^ 31 ∧
    segment.stop < position + 2 ^ 31
  held : ∀ other, some other ∈ held →
    position < other.start + 2 ^ 31 ∧ other.stop < position + 2 ^ 31

theorem Refines.pools {isn first : Nat} {stream sent : Bytes}
    {relay : RelayState} {assembly : Assembly}
    (refines : Refines isn stream first relay sent assembly) :
    Pools isn stream relay.oooPool assembly.held := by
  rcases Bool.eq_false_or_eq_true assembly.started with begun | fresh
  · exact (refines.reached begun).pools
  · exact (refines.fresh fresh).1

/-- The first segment sets the cursor of both. -/
theorem initSeq_refines {isn first : Nat} {stream sent : Bytes}
    {relay : RelayState} {assembly : Assembly} {segment : Segment}
    (refines : Refines isn stream first relay sent assembly)
    (inside : segment.stop ≤ stream.length)
    (opens : assembly.started = false → segment.start = first) :
    (initSeq relay (serial isn segment.start)).seqInitialized = true ∧
      Reached isn stream first (initSeq relay (serial isn segment.start)) sent
        (assembly.start segment).cursor assembly.held := by
  rw [initSeq, refines.initialized, Assembly.start]
  split_ifs with begun
  · exact ⟨refines.initialized.trans begun, refines.reached begun⟩
  · have fresh := Bool.eq_false_iff.mpr begun
    obtain ⟨pools, inStep, nothing⟩ := refines.fresh fresh
    refine ⟨rfl, pools, inStep, rfl, ?_, (opens fresh).ge, ?_⟩
    · rw [opens fresh, between_self]
      exact nothing
    · exact (Nat.le_add_right _ _).trans inside

/-- After a write the flush is the move of the assembly. -/
theorem oooFlush_refines {isn first base position : Nat} {stream sent : Bytes}
    {malloc : Nat → Option (Nat → UInt8)} {relay : RelayState}
    {assembly : Assembly} (grants : ∀ size, malloc size ≠ none)
    (initialized : relay.seqInitialized = true)
    (reached : Reached isn stream first relay sent position assembly.held)
    (window : Window base position assembly.held) :
    (oooFlush malloc relay).seqInitialized = true ∧
      Reached isn stream first (oooFlush malloc relay) sent
        (assembly.moveTo position).cursor (assembly.moveTo position).held := by
  obtain ⟨same, flushed⟩ := oooFlushLoop_refines grants assembly.held.length
    position assembly.held relay reached window
  rw [oooFlush, reached.pools.length_eq]
  exact ⟨same.trans initialized, flushed⟩

/-- An early segment goes to the same slot of the pool. -/
theorem oooInsert_refines {isn first : Nat} {stream sent : Bytes}
    {relay : RelayState} {assembly : Assembly} {segment : Segment}
    (initialized : relay.seqInitialized = true)
    (reached : Reached isn stream first relay sent assembly.cursor
      assembly.held)
    (inside : segment.stop ≤ stream.length)
    (distinct : Distinct segment.start assembly.held)
    (room : assembly.held.findIdx? (startsAt segment.start) = none →
      assembly.held.findIdx? Option.isNone ≠ none) :
    (oooInsert relay (serial isn segment.start)
        (payloadOf stream segment)).seqInitialized = true ∧
      Reached isn stream first
        (oooInsert relay (serial isn segment.start)
          (payloadOf stream segment)) sent (assembly.insert segment).cursor
        (assembly.insert segment).held := by
  rw [oooInsert, Assembly.insert, oooFindSeq_pools reached.pools distinct]
  cases found : assembly.held.findIdx? (startsAt segment.start) with
  | some index => exact ⟨initialized, reached⟩
  | none =>
      obtain ⟨index, free⟩ := Option.ne_none_iff_exists'.mp (room found)
      rw [oooFindFree_pools reached.pools, free]
      have filled : Pools isn stream
          (relay.oooPool.set index
            { seq := serial isn segment.start
              used := true
              data := payloadOf stream segment })
          (assembly.held.set index (some segment)) :=
        forall₂_set reached.pools index ⟨rfl, rfl, rfl, inside⟩
      exact ⟨initialized, { reached with pools := filled }⟩

/-- `process_tcp_payload` does to the relay what an arriving segment does to
the assembly. -/
theorem processTcpPayload_refines {isn first : Nat} {stream sent : Bytes}
    {relay : RelayState} {assembly : Assembly} {segment : Segment}
    {malloc : Nat → Option (Nat → UInt8)}
    (refines : Refines isn stream first relay sent assembly)
    (grants : ∀ size, malloc size ≠ none)
    (positive : 0 < segment.length) (inside : segment.stop ≤ stream.length)
    (opens : assembly.started = false → segment.start = first)
    (near : Near (assembly.start segment).cursor segment assembly.held)
    (room : assembly.Room segment) :
    Refines isn stream first
      (processTcpPayload malloc relay (serial isn segment.start)
        (payloadOf stream segment)) sent (assembly.accept segment) := by
  obtain ⟨initialized, reached⟩ := initSeq_refines refines inside opens
  have started := accept_started positive room
  suffices goal :
      (processTcpPayload malloc relay (serial isn segment.start)
        (payloadOf stream segment)).seqInitialized = true ∧
      Reached isn stream first
        (processTcpPayload malloc relay (serial isn segment.start)
          (payloadOf stream segment)) sent (assembly.accept segment).cursor
        (assembly.accept segment).held by
    refine ⟨goal.1.trans started.symm, fun fresh => ?_, fun _ => goal.2⟩
    rw [started] at fresh
    exact nomatch fresh
  have arriving := near.arriving
  have longer : segment.start < segment.stop := Nat.lt_add_of_pos_right positive
  have held := start_held assembly segment
  have seqNumber : serial isn segment.start =
      (initSeq relay (serial isn segment.start)).expectedSeq ↔
        segment.start = (assembly.start segment).cursor := by
    rw [reached.expected, serial_inj_near (by omega) (by omega)]
  have seqAhead : serialGt (serial isn segment.start)
      (initSeq relay (serial isn segment.start)).expectedSeq = true ↔
        (assembly.start segment).cursor < segment.start := by
    rw [reached.expected, serialGt_serial (by omega) (by omega)]
  have stopNumber : serial isn segment.start +
      UInt32.ofNat (payloadOf stream segment).length =
        serial isn segment.stop := by
    rw [payloadOf, between_length inside, serial_add]
    congr 1
    omega
  have stopAhead : serialGt (serial isn segment.stop)
      (initSeq relay (serial isn segment.start)).expectedSeq = true ↔
        (assembly.start segment).cursor < segment.stop := by
    rw [reached.expected, serialGt_serial (by omega) (by omega)]
  have window : (assembly.start segment).cursor ≤ segment.stop →
      Window (assembly.start segment).cursor segment.stop
        (assembly.start segment).held := by
    intro low
    rw [held]
    exact ⟨low, arriving.2, near.held⟩
  simp only [processTcpPayload, Assembly.accept, stopNumber]
  by_cases here : segment.start = (assembly.start segment).cursor
  · have number : (initSeq relay (serial isn segment.start)).expectedSeq +
        UInt32.ofNat (payloadOf stream segment).length =
          serial isn segment.stop := by
      rw [← seqNumber.mpr here, stopNumber]
    have written := reached.write grants
      (by omega : (assembly.start segment).cursor ≤ segment.stop) inside number
    rw [if_pos (seqNumber.mpr here), if_pos here]
    rw [← here] at written
    exact oooFlush_refines grants initialized
      (by rw [held]; exact written) (window (by omega))
  · rw [if_neg (fun same => here (seqNumber.mp same)), if_neg here]
    by_cases ahead : (assembly.start segment).cursor < segment.start
    · have begun : assembly.started = true := by
        by_contra fresh
        rw [Assembly.start, if_neg fresh] at ahead
        exact Nat.lt_irrefl _ ahead
      have same := start_of_started begun segment
      rw [if_pos (seqAhead.mpr ahead), if_pos ahead]
      rw [same] at reached ahead near arriving ⊢
      refine oooInsert_refines initialized reached inside ?_ (room begun ahead)
      intro other member
      have close := near.held other member
      simp only [Segment.stop] at close arriving
      omega
    · rw [if_neg (fun later => ahead (seqAhead.mp later)), if_neg ahead]
      by_cases reaches : (assembly.start segment).cursor < segment.stop
      · have offset : ((initSeq relay (serial isn segment.start)).expectedSeq -
            serial isn segment.start).toNat =
              (assembly.start segment).cursor - segment.start := by
          rw [reached.expected, serial_sub (by omega) (by omega)]
        have newLen : (serial isn segment.stop -
            (initSeq relay (serial isn segment.start)).expectedSeq).toNat =
              segment.stop - (assembly.start segment).cursor := by
          rw [reached.expected, serial_sub (by omega) (by omega)]
        have number : (initSeq relay (serial isn segment.start)).expectedSeq +
            (serial isn segment.stop -
              (initSeq relay (serial isn segment.start)).expectedSeq) =
                serial isn segment.stop := by
          rw [UInt32.add_comm, UInt32.sub_add_cancel]
        have written := reached.write grants (Nat.le_of_lt reaches) inside
          number
        rw [if_pos (stopAhead.mpr reaches), if_pos reaches, offset, newLen,
          payloadOf, between_drop_take (by omega)]
        exact oooFlush_refines grants initialized
          (by rw [held]; exact written) (window (by omega))
      · rw [if_neg (fun later => reaches (stopAhead.mp later)),
          if_neg reaches, held]
        exact ⟨initialized, reached⟩

/-! ## Runs over a stream -/

/-- What happens while a stream is sent: one of its segments arrives, or bytes
go to the slave. -/
inductive Arrival where
  | segment (segment : Segment)
  | send (accepted : Nat)
deriving DecidableEq, Repr

/-- The event that the relay sees. -/
def Arrival.event (isn : Nat) (stream : Bytes) : Arrival → RelayEvent
  | .segment piece =>
      .payload (serial isn piece.start) (payloadOf stream piece)
  | .send accepted => .send accepted

/-- One step of the relay over a stream. -/
def observe (malloc : Nat → Option (Nat → UInt8)) (isn : Nat)
    (stream : Bytes) (relay : RelayState) (arrival : Arrival) :
    RelayState × Bytes :=
  relay.step malloc (arrival.event isn stream)

/-- The bytes that have been written to the ring, with those already sent. -/
def writtenBy (reached : RelayState × List Bytes) : Bytes :=
  reached.2.flatten ++ reached.1.rb.contents

/-- Where the first segment starts. -/
def firstStart : List Arrival → Option Nat
  | [] => none
  | .segment segment :: _ => some segment.start
  | .send _ :: rest => firstStart rest

theorem firstStart_append (front rest : List Arrival) :
    firstStart (front ++ rest) = (firstStart front).or (firstStart rest) := by
  induction front with
  | nil => rfl
  | cons arrival front induction =>
      cases arrival with
      | segment segment => rfl
      | send accepted => exact induction

theorem initial_refines (isn : Nat) (stream : Bytes) (first : Nat)
    (buf : Nat → UInt8) :
    Refines isn stream first (RelayState.initial buf) []
      (Assembly.empty oooMax) where
  initialized := rfl
  fresh := by
    intro _
    refine ⟨?_, rbInit_inStep buf (by decide), rfl⟩
    exact List.forall₂_iff_get.mpr
      ⟨by simp [RelayState.initial, Assembly.empty], by
        intro index left right
        simp only [RelayState.initial, Assembly.empty, List.get_eq_getElem,
          List.getElem_replicate]
        rfl⟩
  reached := fun started => nomatch started

theorem send_refines {isn first : Nat} {stream sent : Bytes}
    {relay : RelayState} {assembly : Assembly} (accepted : Nat)
    (refines : Refines isn stream first relay sent assembly) :
    Refines isn stream first
      { relay with rb := (rbSend relay.rb accepted).1 }
      (sent ++ (rbSend relay.rb accepted).2) assembly where
  initialized := refines.initialized
  fresh := by
    intro fresh
    obtain ⟨pools, inStep, nothing⟩ := refines.fresh fresh
    obtain ⟨inStep', queue⟩ := rbSend_spec accepted inStep
    refine ⟨pools, inStep', ?_⟩
    rw [List.append_assoc, queue]
    exact nothing
  reached := by
    intro begun
    have reached := refines.reached begun
    obtain ⟨inStep', queue⟩ := rbSend_spec accepted reached.inStep
    refine
      { reached with
        inStep := inStep'
        written := ?_ }
    rw [List.append_assoc, queue]
    exact reached.written

section Runs

variable {malloc : Nat → Option (Nat → UInt8)} {isn : Nat} {stream : Bytes}
  {buf : Nat → UInt8}

/-- The relay after a list of arrivals, with the bytes that went out. -/
abbrev after (malloc : Nat → Option (Nat → UInt8)) (isn : Nat)
    (stream : Bytes) (buf : Nat → UInt8) (arrivals : List Arrival) :
    RelayState × List Bytes :=
  run (observe malloc isn stream) (RelayState.initial buf) arrivals

/-- What an input of some machine around the relay means to the relay. -/
def readStep (malloc : Nat → Option (Nat → UInt8)) (isn : Nat)
    (stream : Bytes) (relay : RelayState) :
    Option Arrival → RelayState × Bytes
  | some arrival => observe malloc isn stream relay arrival
  | none => (relay, [])

/--
The rule for runs: what every arrival keeps of the assembly holds in the end,
and the relay is that assembly, as long as each arriving segment is near and
finds room.  The inputs may be those of a machine around the relay, which reads
an arrival in each of them or ignores it.
-/
theorem run_keeps {κ : Type} {machine : RelayState → κ → RelayState × Bytes}
    {reading : κ → Option Arrival} {kept : List κ → Assembly → Prop}
    {inputs : List κ} (grants : ∀ size, malloc size ≠ none)
    (reads : ∀ input ∈ inputs, ∀ relay,
      machine relay input =
        readStep malloc isn stream relay (reading input))
    (empty : kept [] (Assembly.empty oooMax))
    (idles : ∀ front input assembly,
      (∀ segment, reading input ≠ some (.segment segment)) →
        kept front assembly → kept (front ++ [input]) assembly)
    (accepts : ∀ front input segment assembly,
      front ++ [input] <+: inputs →
      reading input = some (.segment segment) →
      kept front assembly →
      assembly.started = (firstStart (front.filterMap reading)).isSome →
      Refines isn stream ((firstStart (inputs.filterMap reading)).getD 0)
        (run machine (RelayState.initial buf) front).1
        (run machine (RelayState.initial buf) front).2.flatten assembly →
      0 < segment.length ∧ segment.stop ≤ stream.length ∧
        Near (assembly.start segment).cursor segment assembly.held ∧
        assembly.Room segment ∧
        kept (front ++ [input]) (assembly.accept segment)) :
    ∃ assembly,
      kept inputs assembly ∧
        assembly.started = (firstStart (inputs.filterMap reading)).isSome ∧
        Refines isn stream ((firstStart (inputs.filterMap reading)).getD 0)
          (run machine (RelayState.initial buf) inputs).1
          (run machine (RelayState.initial buf) inputs).2.flatten
          assembly := by
  suffices fronts : ∀ front, front <+: inputs → ∃ assembly,
      kept front assembly ∧
        assembly.started = (firstStart (front.filterMap reading)).isSome ∧
        Refines isn stream ((firstStart (inputs.filterMap reading)).getD 0)
          (run machine (RelayState.initial buf) front).1
          (run machine (RelayState.initial buf) front).2.flatten assembly from
    fronts inputs (List.prefix_refl inputs)
  intro front
  induction front using List.reverseRecOn with
  | nil =>
      intro _
      exact ⟨Assembly.empty oooMax, empty, rfl, initial_refines _ _ _ _⟩
  | append_singleton front input induction =>
      intro longer
      obtain ⟨assembly, holds, begun, refines⟩ :=
        induction ((List.prefix_append front [input]).trans longer)
      have member : input ∈ inputs :=
        longer.subset (List.mem_append_right front (List.mem_singleton.mpr rfl))
      rw [run_append, List.filterMap_append, firstStart_append]
      simp only [run, List.flatten_append, List.flatten_cons, List.flatten_nil,
        List.append_nil, reads input member]
      cases read : reading input with
      | none =>
          rw [List.filterMap_cons_none read]
          refine ⟨assembly, idles front input assembly ?_ holds, ?_, ?_⟩
          · intro segment same
            rw [read] at same
            cases same
          · rw [begun]
            cases firstStart (front.filterMap reading) <;> rfl
          · rw [readStep, List.append_nil]
            exact refines
      | some arrival =>
          rw [List.filterMap_cons_some read]
          cases arrival with
          | send accepted =>
              refine ⟨assembly, idles front input assembly ?_ holds, ?_,
                send_refines accepted refines⟩
              · intro segment same
                rw [read] at same
                cases same
              · rw [begun]
                cases firstStart (front.filterMap reading) <;> rfl
          | segment segment =>
              obtain ⟨positive, inside, near, room, holds'⟩ :=
                accepts front input segment assembly longer read holds begun
                  refines
              refine ⟨assembly.accept segment, holds', ?_, ?_⟩
              · rw [accept_started positive room]
                cases firstStart (front.filterMap reading) <;> rfl
              · rw [readStep, observe, Arrival.event, RelayState.step,
                  List.append_nil]
                apply processTcpPayload_refines refines grants positive inside
                  ?_ near room
                intro fresh
                obtain ⟨rest, rfl⟩ := longer
                rw [fresh] at begun
                have none : firstStart (front.filterMap reading) = none :=
                  Option.isNone_iff_eq_none.mp
                    (Option.isSome_eq_false_iff.mp begun.symm)
                rw [List.filterMap_append, List.filterMap_append,
                  firstStart_append, firstStart_append, none,
                  List.filterMap_cons_some read]
                rfl

/-! ### The written bytes -/

/-- A segment that is cut from the stream and lies in the `2 ^ 31` bytes from a
position on. -/
structure CutFrom (stream : Bytes) (low : Nat) (segment : Segment) :
    Prop where
  positive : 1 ≤ segment.length
  small : segment.length ≤ maxPayloadSize
  inside : segment.stop ≤ stream.length
  above : low ≤ segment.start
  below : segment.stop < low + 2 ^ 31

/-- `ooo_insert` finds a free slot if it needs one. -/
def PoolSuffices (isn : Nat) (relay : RelayState) : Arrival → Prop
  | .segment piece =>
      relay.seqInitialized = true →
        serialGt (serial isn piece.start) relay.expectedSeq = true →
          oooFindSeq relay.oooPool (serial isn piece.start) = none →
            oooFindFree relay.oooPool ≠ none
  | .send _ => True

theorem Near.distinct {position : Nat} {segment : Segment}
    {held : List (Option Segment)} (near : Near position segment held) :
    Distinct segment.start held := by
  intro other member
  have arriving := near.arriving
  have close := near.held other member
  simp only [Segment.stop] at arriving close
  omega

theorem room_of_poolSuffices {first : Nat} {sent : Bytes} {relay : RelayState}
    {assembly : Assembly} {segment : Segment}
    (refines : Refines isn stream first relay sent assembly)
    (near : Near (assembly.start segment).cursor segment assembly.held)
    (enough : PoolSuffices isn relay (.segment segment)) :
    assembly.Room segment := by
  intro begun ahead found
  have reached := refines.reached begun
  have same := start_of_started begun segment
  have distinct := near.distinct
  have arriving := near.arriving
  rw [same] at arriving
  simp only [Segment.stop] at arriving
  rw [← oooFindFree_pools refines.pools]
  apply enough (refines.initialized.trans begun)
  · rw [reached.expected, serialGt_serial (by omega) (by omega)]
    exact ahead
  · rw [oooFindSeq_pools refines.pools distinct]
    exact found

/-- Segments within `2 ^ 31` bytes are near whatever has been reached. -/
theorem near_of_within {low : Nat} {assembly : Assembly} {segment : Segment}
    (within : assembly.Within low (low + 2 ^ 31 - 1))
    (cut : CutFrom stream low segment) :
    Near (assembly.start segment).cursor segment assembly.held := by
  obtain ⟨positive, -, -, above, below⟩ := cut
  have cursor : low ≤ (assembly.start segment).cursor ∧
      (assembly.start segment).cursor ≤ low + 2 ^ 31 - 1 := by
    rw [Assembly.start]
    split_ifs with begun
    · exact within.cursor begun
    · simp only [Segment.stop] at below ⊢
      omega
  constructor
  · omega
  · intro other member
    have bounds := within.held other member
    omega

/-- A step within the span keeps it and finds what it needs. -/
theorem step_within {first low : Nat} {sent : Bytes} {relay : RelayState}
    {assembly : Assembly} {segment : Segment}
    (within : assembly.Within low (low + 2 ^ 31 - 1))
    (refines : Refines isn stream first relay sent assembly)
    (cut : CutFrom stream low segment)
    (enough : PoolSuffices isn relay (.segment segment)) :
    Near (assembly.start segment).cursor segment assembly.held ∧
      assembly.Room segment ∧
      (assembly.accept segment).Within low (low + 2 ^ 31 - 1) := by
  have near := near_of_within within cut
  have room := room_of_poolSuffices refines near enough
  have below := cut.below
  exact
    ⟨near, room,
      accept_within within cut.positive room cut.above (by omega)⟩

theorem mem_of_front {arrivals front : List Arrival} {arrival : Arrival}
    (longer : front ++ [arrival] <+: arrivals) : arrival ∈ arrivals := by
  apply longer.subset
  exact List.mem_append_right front (List.mem_singleton.mpr rfl)

/--
Whatever segments of a stream arrive, in whatever order: the ring has received
exactly the bytes from the first segment's number up to the one expected, also
where the numbers wrap around.
-/
theorem reassembly_writes_stream {low first : Nat} {arrivals : List Arrival}
    (grants : ∀ size, malloc size ≠ none)
    (cut : ∀ segment, .segment segment ∈ arrivals → CutFrom stream low segment)
    (enough : Along (observe malloc isn stream) (PoolSuffices isn)
      (RelayState.initial buf) arrivals)
    (opens : firstStart arrivals = some first) :
    ∃ cursor, first ≤ cursor ∧ cursor ≤ stream.length ∧
      low ≤ cursor ∧ cursor < low + 2 ^ 31 ∧
      (after malloc isn stream buf arrivals).1.expectedSeq =
        serial isn cursor ∧
      writtenBy (after malloc isn stream buf arrivals) =
        between stream first cursor := by
  obtain ⟨assembly, within, begun, refines⟩ :=
    @run_keeps malloc isn stream buf Arrival (observe malloc isn stream) some
      (fun _ assembly => assembly.Within low (low + 2 ^ 31 - 1)) arrivals
      grants (fun _ _ _ => rfl) (empty_within oooMax low _)
      (fun _ _ _ _ holds => holds)
      (by
        rintro front _ segment assembly longer ⟨⟩ within - refines
        have piece := cut segment (mem_of_front longer)
        obtain ⟨near, room, within'⟩ := step_within within refines piece
          (along_iff_fronts.mp enough front _ longer)
        exact ⟨piece.positive, piece.inside, near, room, within'⟩)
  rw [List.filterMap_some, opens] at begun refines
  have reached := refines.reached begun
  obtain ⟨above, below⟩ := within.cursor begun
  exact ⟨assembly.cursor, reached.after, reached.inside, above, by omega,
    reached.expected, reached.written⟩

end Runs

/-- Memory that is all zero. -/
def zeros : Nat → UInt8 :=
  fun _ => 0

/-- Six bytes. -/
def sixBytes : Bytes :=
  [1, 2, 3, 4, 5, 6]

/-- The second of three segments comes last, after a byte was sent. -/
def gapFilled : List Arrival :=
  [.segment ⟨0, 2⟩, .segment ⟨4, 2⟩, .send 1, .segment ⟨2, 2⟩]

/-- Here the numbers wrap around inside of the first segment. -/
theorem reassembly_writes_stream_wrapped :
    ∃ cursor, 0 ≤ cursor ∧ cursor ≤ sixBytes.length ∧
      0 ≤ cursor ∧ cursor < 0 + 2 ^ 31 ∧
      (after (fun _ => some zeros) (2 ^ 32 - 1) sixBytes zeros
        gapFilled).1.expectedSeq = serial (2 ^ 32 - 1) cursor ∧
      writtenBy (after (fun _ => some zeros) (2 ^ 32 - 1) sixBytes zeros
        gapFilled) = between sixBytes 0 cursor := by
  apply reassembly_writes_stream
  · intro size missing
    exact nomatch missing
  · intro segment member
    have listed : segment ∈ [Segment.mk 0 2, ⟨4, 2⟩, ⟨2, 2⟩] := by
      simpa [gapFilled] using member
    have checked : ∀ piece ∈ [Segment.mk 0 2, ⟨4, 2⟩, ⟨2, 2⟩],
        1 ≤ piece.length ∧ piece.length ≤ maxPayloadSize ∧
          piece.stop ≤ sixBytes.length ∧ piece.stop < 0 + 2 ^ 31 := by
      decide
    obtain ⟨positive, small, inside, below⟩ := checked segment listed
    exact ⟨positive, small, inside, Nat.zero_le _, below⟩
  · refine ⟨?_, ?_, trivial, ?_, trivial⟩
    · intro begun
      exact nomatch begun
    · intro _ _ _
      decide +kernel
    · intro _ _ _
      decide +kernel
  · rfl

end Kivo.Relay.Reassembly
