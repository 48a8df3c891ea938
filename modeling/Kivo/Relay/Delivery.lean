import Kivo.Relay.Reassembly

/-!
# When every received byte is delivered

A segment in the pool is taken up only when the cursor stands at its first byte.
A retransmission that is cut differently can carry the cursor over that byte, and
then the rest of the segment stays where it is, with the gap in front of it long
filled.  The same happens to the end of a segment that arrives with the start of
a shorter one in the pool: it is dropped.

As long as no arriving segment crosses one that waits ahead of the cursor,
nothing of the kind happens: the cursor is always behind the last byte up to
which everything has arrived.
-/

namespace Kivo.Relay.Delivery

open Kivo.Clib.Memory
open Kivo.Clib.Serial
open Kivo.Clib.Simulation
open Kivo.Relay.Ring
open Kivo.Relay.Segments
open Kivo.Relay.Reassembly

/-! ## The condition -/

/-- How far a sequence number is ahead of the one that is expected. -/
def distance (relay : RelayState) (seq : UInt32) : Int :=
  (seq - relay.expectedSeq).toInt32.toInt

/--
A held segment from `start` to `stop` and one that arrives: one of them ends
inside the other without being part of it, or the held one is the shorter of two
with the same start.
-/
def crossing (start stop start' stop' : Int) : Prop :=
  (start < start' ∧ start' < stop ∧ stop < stop') ∨
    (start' < start ∧ start < stop' ∧ stop' < stop) ∨
    (start = start' ∧ stop < stop')

/-- The arriving segment crosses none that waits ahead of the cursor. -/
def Uncrossed (isn : Nat) (relay : RelayState) : Arrival → Prop
  | .segment piece =>
      ∀ node ∈ relay.oooPool, node.used = true →
        0 < distance relay node.seq →
          ¬ crossing (distance relay node.seq)
            (distance relay node.seq + node.data.length)
            (distance relay (serial isn piece.start))
            (distance relay (serial isn piece.start) + piece.length)
  | .send _ => True

/-! ## From numbers to positions -/

theorem distance_serial {isn position cursor : Nat} {relay : RelayState}
    (expected : relay.expectedSeq = serial isn cursor)
    (above : cursor < position + 2 ^ 31)
    (below : position < cursor + 2 ^ 31) :
    distance relay (serial isn position) = (position : Int) - cursor := by
  rw [distance, expected, serial, serial, toInt_ofNat_sub (by omega) (by omega)]
  omega

theorem crossing_distance {segment arriving : Segment} {cursor : Nat} :
    crossing ((segment.start : Int) - cursor)
        ((segment.start : Int) - cursor + segment.length)
        ((arriving.start : Int) - cursor)
        ((arriving.start : Int) - cursor + arriving.length) ↔
      segment.Crosses arriving := by
  simp only [crossing, Segment.Crosses, Segment.stop]
  omega

/-- A segment of the pool has its slot. -/
theorem node_of_held {isn : Nat} {stream : Bytes} {pool : List OooNode}
    {held : List (Option Segment)} {segment : Segment}
    (pools : Pools isn stream pool held) (member : some segment ∈ held) :
    ∃ node ∈ pool, node.used = true ∧ node.seq = serial isn segment.start ∧
      node.data.length = segment.length := by
  induction pools with
  | nil => exact absurd member List.not_mem_nil
  | cons stands _ induction =>
      rcases List.mem_cons.mp member with rfl | later
      · obtain ⟨used, numbered, data, inside⟩ := stands
        refine ⟨_, List.mem_cons_self, used, numbered, ?_⟩
        rw [data, payloadOf, between_length inside]
        exact Nat.add_sub_cancel_left _ _
      · obtain ⟨node, here, stands'⟩ := induction later
        exact ⟨node, List.mem_cons_of_mem _ here, stands'⟩

/-- What the numbers say about crossing holds of the positions. -/
theorem not_crosses_of_uncrossed {isn first : Nat} {stream sent : Bytes}
    {relay : RelayState} {assembly : Assembly} {segment : Segment}
    (refines : Refines isn stream first relay sent assembly)
    (begun : assembly.started = true)
    (near : Near (assembly.start segment).cursor segment assembly.held)
    (plain : Uncrossed isn relay (.segment segment)) :
    ∀ other, some other ∈ assembly.held → assembly.cursor < other.start →
      ¬ other.Crosses segment := by
  intro other member ahead
  have same := start_of_started begun segment
  rw [same] at near
  have expected := (refines.reached begun).expected
  have arriving := near.arriving
  have close := near.held other member
  simp only [Segment.stop] at arriving close
  obtain ⟨node, here, used, numbered, length⟩ :=
    node_of_held refines.pools member
  have nodeAt : distance relay node.seq =
      (other.start : Int) - assembly.cursor := by
    rw [numbered, distance_serial expected (by omega) (by omega)]
  have pieceAt : distance relay (serial isn segment.start) =
      (segment.start : Int) - assembly.cursor :=
    distance_serial expected (by omega) (by omega)
  have apart := plain node here used (by omega)
  rw [nodeAt, pieceAt, length] at apart
  exact fun crosses => apart (crossing_distance.mpr crosses)

/-! ## Runs -/

/-- The segments among the arrivals. -/
def segmentsOf : List Arrival → List Segment
  | [] => []
  | .segment piece :: rest => piece :: segmentsOf rest
  | .send _ :: rest => segmentsOf rest

theorem segmentsOf_append (front rest : List Arrival) :
    segmentsOf (front ++ rest) = segmentsOf front ++ segmentsOf rest := by
  induction front with
  | nil => rfl
  | cons arrival front induction =>
      cases arrival with
      | segment piece => exact congrArg (piece :: ·) induction
      | send accepted => exact induction

theorem mem_segmentsOf {arrivals : List Arrival} {segment : Segment} :
    segment ∈ segmentsOf arrivals ↔ .segment segment ∈ arrivals := by
  induction arrivals with
  | nil => simp [segmentsOf]
  | cons arrival rest induction =>
      cases arrival with
      | segment piece => simp [segmentsOf, induction]
      | send accepted => simp [segmentsOf, induction]

/-- An assembly that has not started has seen nothing to cross. -/
theorem plain_of_complete {isn first : Nat} {stream sent : Bytes}
    {relay : RelayState} {assembly : Assembly} {segment : Segment}
    {seen : List Segment} (complete : assembly.Complete seen)
    (refines : Refines isn stream first relay sent assembly)
    (near : Near (assembly.start segment).cursor segment assembly.held)
    (plain : Uncrossed isn relay (.segment segment)) :
    ∀ other, some other ∈ assembly.held → assembly.cursor < other.start →
      ¬ other.Crosses segment := by
  rcases Bool.eq_false_or_eq_true assembly.started with begun | fresh
  · exact not_crosses_of_uncrossed refines begun near plain
  · intro other member
    exact absurd member ((complete.fresh fresh).2 other)

/--
In every run in which no arriving segment crosses one that waits ahead of the
cursor, and at every moment of it: when everything from the first number up to a
position has arrived, the number that is expected has reached that position.
-/
theorem reassembly_delivers {malloc : Nat → Option (Nat → UInt8)}
    {isn low first position : Nat} {stream : Bytes} {buf : Nat → UInt8}
    {arrivals front : List Arrival} (grants : ∀ size, malloc size ≠ none)
    (cut : ∀ segment, .segment segment ∈ arrivals → CutFrom stream low segment)
    (enough : Along (observe malloc isn stream) (PoolSuffices isn)
      (RelayState.initial buf) arrivals)
    (plain : Along (observe malloc isn stream) (Uncrossed isn)
      (RelayState.initial buf) arrivals)
    (reached : front <+: arrivals)
    (opens : firstStart front = some first)
    (all : ∀ place, first ≤ place → place < position →
      ∃ segment, .segment segment ∈ front ∧ segment.Has place) :
    ∃ cursor, position ≤ cursor ∧ cursor ≤ stream.length ∧
      low ≤ cursor ∧ cursor < low + 2 ^ 31 ∧
      (after malloc isn stream buf front).1.expectedSeq =
        serial isn cursor := by
  obtain ⟨assembly, ⟨within, complete⟩, begun, refines⟩ :=
    @run_keeps malloc isn stream buf Arrival (observe malloc isn stream) some
      (fun seen assembly => assembly.Within low (low + 2 ^ 31 - 1) ∧
        assembly.Complete (segmentsOf seen)) front
      grants (fun _ _ _ => rfl)
      ⟨empty_within oooMax low _, empty_complete oooMax⟩
      (by
        rintro before arrival assembly other ⟨within, complete⟩
        refine ⟨within, ?_⟩
        cases arrival with
        | segment piece => exact absurd rfl (other piece)
        | send accepted =>
            rw [segmentsOf_append, segmentsOf, segmentsOf, List.append_nil]
            exact complete)
      (by
        rintro before _ segment assembly longer ⟨⟩ ⟨within, complete⟩ - refines
        have whole := longer.trans reached
        have piece := cut segment (mem_of_front whole)
        obtain ⟨near, room, within'⟩ := step_within within refines piece
          (along_iff_fronts.mp enough before _ whole)
        have uncrossed := plain_of_complete complete refines near
          (along_iff_fronts.mp plain before _ whole)
        refine ⟨piece.positive, piece.inside, near, room, within', ?_⟩
        rw [segmentsOf_append, segmentsOf, segmentsOf]
        exact accept_complete complete piece.positive room uncrossed)
  rw [List.filterMap_some, opens] at begun refines
  have there := refines.reached begun
  obtain ⟨above, below⟩ := within.cursor begun
  have arrived : position ≤ assembly.cursor := by
    apply complete.reaches there.after
    intro place low high
    obtain ⟨segment, member, has⟩ := all place low high
    exact ⟨segment, mem_segmentsOf.mpr member, has⟩
  exact ⟨assembly.cursor, arrived, there.inside, above, by omega,
    there.expected⟩

instance crossingDecidable (start stop start' stop' : Int) :
    Decidable (crossing start stop start' stop') :=
  inferInstanceAs (Decidable (_ ∨ _ ∨ _))

instance uncrossedDecidable (isn : Nat) (relay : RelayState) :
    (arrival : Arrival) → Decidable (Uncrossed isn relay arrival)
  | .segment _ => inferInstanceAs (Decidable (∀ node ∈ relay.oooPool, _))
  | .send _ => inferInstanceAs (Decidable True)

instance poolSufficesDecidable (isn : Nat) (relay : RelayState) :
    (arrival : Arrival) → Decidable (PoolSuffices isn relay arrival)
  | .segment piece =>
      inferInstanceAs (Decidable
        (relay.seqInitialized = true →
          serialGt (serial isn piece.start) relay.expectedSeq = true →
            oooFindSeq relay.oooPool (serial isn piece.start) = none →
              oooFindFree relay.oooPool ≠ none))
  | .send _ => inferInstanceAs (Decidable True)

/-- The pieces of a list of arrivals are cut from six bytes. -/
theorem cut_sixBytes {arrivals : List Arrival}
    (checked : ∀ piece ∈ segmentsOf arrivals,
      1 ≤ piece.length ∧ piece.length ≤ maxPayloadSize ∧
        piece.stop ≤ sixBytes.length) :
    ∀ segment, .segment segment ∈ arrivals →
      CutFrom sixBytes 0 segment := by
  intro segment member
  obtain ⟨positive, small, inside⟩ :=
    checked segment (mem_segmentsOf.mpr member)
  refine ⟨positive, small, inside, Nat.zero_le _, ?_⟩
  calc
    segment.stop ≤ 6 := inside
    _ < 0 + 2 ^ 31 := by decide

/-- Every one of the six bytes has arrived. -/
theorem all_sixBytes {arrivals : List Arrival}
    (checked : ∀ place < 6, ∃ piece ∈ segmentsOf arrivals,
      piece.start ≤ place ∧ place < piece.stop) :
    ∀ place, 0 ≤ place → place < 6 →
      ∃ segment, .segment segment ∈ arrivals ∧ segment.Has place := by
  intro place _ below
  obtain ⟨piece, member, has⟩ := checked place below
  exact ⟨piece, mem_segmentsOf.mp member, has⟩

/-- With the gap filled, all six bytes are delivered. -/
theorem reassembly_delivers_gapFilled :
    ∃ cursor, 6 ≤ cursor ∧ cursor ≤ sixBytes.length ∧
      0 ≤ cursor ∧ cursor < 0 + 2 ^ 31 ∧
      (after (fun _ => some zeros) 0 sixBytes zeros gapFilled).1.expectedSeq =
        serial 0 cursor := by
  apply @reassembly_delivers (fun _ => some zeros) 0 0 0 6 sixBytes zeros
    gapFilled gapFilled
  · intro size missing
    exact nomatch missing
  · exact cut_sixBytes (by decide)
  · refine ⟨?_, ?_, ?_, ?_, trivial⟩ <;> decide +kernel
  · refine ⟨?_, ?_, ?_, ?_, trivial⟩ <;> decide +kernel
  · exact List.prefix_refl gapFilled
  · rfl
  · exact all_sixBytes (by decide)

/-- The third segment ends inside of the second, which waits in the pool. -/
def crossed : List Arrival :=
  [.segment ⟨0, 1⟩, .segment ⟨2, 4⟩, .segment ⟨1, 2⟩]

/-- Without the condition bytes get stuck: all six have arrived, from the first
one on and with room in the pool, and the relay still waits for the fourth. -/
theorem reassembly_stuck :
    (∀ segment, .segment segment ∈ crossed → CutFrom sixBytes 0 segment) ∧
      Along (observe (fun _ => some zeros) 0 sixBytes) (PoolSuffices 0)
        (RelayState.initial zeros) crossed ∧
      firstStart crossed = some 0 ∧
      (∀ place, 0 ≤ place → place < 6 →
        ∃ segment, .segment segment ∈ crossed ∧ segment.Has place) ∧
      ¬ ∃ cursor, 6 ≤ cursor ∧ cursor ≤ sixBytes.length ∧
        (after (fun _ => some zeros) 0 sixBytes zeros
          crossed).1.expectedSeq = serial 0 cursor := by
  refine ⟨cut_sixBytes (by decide), ?_, rfl, all_sixBytes (by decide), ?_⟩
  · refine ⟨?_, ?_, ?_, trivial⟩ <;> decide +kernel
  · rintro ⟨cursor, above, below, expected⟩
    have six : cursor = 6 := Nat.le_antisymm below above
    have three : (after (fun _ => some zeros) 0 sixBytes zeros
        crossed).1.expectedSeq = 3 := by
      decide +kernel
    rw [six, three] at expected
    exact absurd expected (by decide)

end Kivo.Relay.Delivery
