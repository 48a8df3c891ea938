import Kivo.Relay.Delivery

/-!
# From the wire to the slave

`handle_tc_dual_write` looks at every packet in the kernel and copies the first
`MAX_PAYLOAD_SIZE` bytes of those to port 2000 into an event; `handle_event`
hands the payload to the reassembly.  The event names the connection, but the
reassembly has one cursor for all of them.

So the relay forwards the commands of one client, if every payload fits and the
segments do not overlap in the pool (`relay_forwards_commands`), and nothing more
can be said: two clients are enough to lose commands.
-/

namespace Kivo.Relay.Filter

open Kivo.Clib.Memory
open Kivo.Clib.Serial
open Kivo.Clib.Simulation
open Kivo.Relay.Ring
open Kivo.Relay.Segments
open Kivo.Relay.Reassembly
open Kivo.Relay.Delivery

/-! ## The filter in the kernel -/

/-- A number in network byte order. -/
def field (frame : Bytes) (offset width : Nat) : Nat :=
  ((frame.drop offset).take width).foldl
    (fun value byte => value * 256 + byte.toNat) 0

/-- `struct event_t`; the payload is the part that has been filled. -/
structure Event where
  srcIp : Nat
  srcPort : Nat
  seq : UInt32
  payloadLen : Nat
  payload : Bytes
deriving DecidableEq, Repr

/-- `ETH_HLEN`. -/
def ethHlen : Nat :=
  14

/-- The address whose packets are passed over, `192.168.37.129`. -/
def slaveAddress : Nat :=
  0xc0a82581

/--
The checks of `handle_tc_dual_write` after which a frame is left alone.  The
headers are read where they stand without options: the IP header at 14, the TCP
header at 34.
-/
def passedOver (frame : Bytes) : Bool :=
  decide (frame.length < ethHlen) ||
    decide (field frame 12 2 ≠ 0x0800) ||
    decide (frame.length < ethHlen + 20) ||
    decide (field frame 23 1 ≠ 6) ||
    decide (frame.length < ethHlen + 20 + 20) ||
    decide (field frame 36 2 ≠ 2000) ||
    decide (field frame 26 4 = slaveAddress) ||
    decide (field frame 47 1 % 8 ≠ 0)

/-- `ihl` and `thl`, the lengths of the two headers. -/
def headerLen (frame : Bytes) : Nat :=
  field frame 14 1 % 16 * 4 + field frame 46 1 / 16 * 4

/--
`handle_tc_dual_write`: the event that is submitted for a frame.  `reserved`
says whether the ring buffer has room.
-/
def handleTcDualWrite (reserved : Bool) (frame : Bytes) : Option Event :=
  if passedOver frame then none
  else if (field frame 16 2 : Int) - headerLen frame < 1 then none
  else
    let len := min (field frame 16 2 - headerLen frame) maxPayloadSize
    let offset := ethHlen + headerLen frame
    if !reserved then none
    else if frame.length < offset + len then none
    else
      some
        { srcIp := field frame 26 4
          srcPort := field frame 34 2
          seq := UInt32.ofNat (field frame 38 4)
          payloadLen := len
          payload := (frame.drop offset).take len }

/-- `handle_event`. -/
def handleEvent (malloc : Nat → Option (Nat → UInt8)) (relay : RelayState)
    (e : Event) : RelayState :=
  if e.payloadLen = 0 ∨ maxPayloadSize < e.payloadLen then relay
  else processTcpPayload malloc relay e.seq e.payload

/-- A frame on its way through both, when nothing is dropped. -/
def receive (malloc : Nat → Option (Nat → UInt8)) (relay : RelayState)
    (frame : Bytes) : RelayState :=
  match handleTcDualWrite true frame with
  | none => relay
  | some e => handleEvent malloc relay e

/-! ## Clients -/

/-- A connection to port 2000 and the commands that it sends. -/
structure Client where
  address : Nat
  port : Nat
  isn : Nat
  commands : List Bytes
  nonempty : ∀ command ∈ commands, command ≠ []

/-- The bytes that the client sends. -/
def Client.stream (client : Client) : Bytes :=
  client.commands.flatten

/-- Where the TCP header of a frame starts. -/
def tcpOffset (frame : Bytes) : Nat :=
  ethHlen + field frame 14 1 % 16 * 4

/-- Where the payload of a frame starts. -/
def payloadOffset (frame : Bytes) : Nat :=
  tcpOffset frame + field frame (tcpOffset frame + 12) 1 / 16 * 4

/-- The frame is a TCP packet of the client with this segment of its stream. -/
structure Carries (frame : Bytes) (client : Client) (segment : Segment) :
    Prop where
  ethernet : field frame 12 2 = 0x0800
  ipHeader : 5 ≤ field frame 14 1 % 16
  protocol : field frame 23 1 = 6
  address : field frame 26 4 = client.address
  port : field frame (tcpOffset frame) 2 = client.port
  dest : field frame (tcpOffset frame + 2) 2 = 2000
  seq : UInt32.ofNat (field frame (tcpOffset frame + 4) 4) =
    serial client.isn segment.start
  tcpHeader : 5 ≤ field frame (tcpOffset frame + 12) 1 / 16
  total : ethHlen + field frame 16 2 = payloadOffset frame + segment.length
  whole : payloadOffset frame + segment.length ≤ frame.length
  payload : (frame.drop (payloadOffset frame)).take segment.length =
    payloadOf client.stream segment
  inside : segment.stop ≤ client.stream.length

/-- What happens: a packet passes the filter, or bytes go to the slave. -/
inductive Traffic (ι : Type) where
  | packet (client : ι) (segment : Segment) (frame : Bytes)
  | send (accepted : Nat)

/-- One step of the filter and the relay. -/
def watch {ι : Type} (malloc : Nat → Option (Nat → UInt8))
    (relay : RelayState) : Traffic ι → RelayState × Bytes
  | .packet _ _ frame => (receive malloc relay frame, [])
  | .send accepted => relay.step malloc (.send accepted)

/-- Bytes that are the commands of all clients, each client's commands in its
order and each of them once. -/
def Interleaves {ι : Type} [DecidableEq ι] (clients : ι → Client)
    (written : Bytes) : Prop :=
  ∃ order : List (ι × Bytes),
    written = (order.map Prod.snd).flatten ∧
      ∀ client, (order.filter (fun entry => entry.1 = client)).map Prod.snd =
        (clients client).commands

/-! ## What the filter passes on -/

/-- The frame is one that the filter reads right and passes on whole. -/
structure Passes (frame : Bytes) (length : Nat) : Prop where
  small : length ≤ maxPayloadSize
  address : field frame 26 4 ≠ slaveAddress
  flags : field frame 47 1 % 8 = 0

theorem payloadOffset_eq {frame : Bytes}
    (noOptions : field frame 14 1 % 16 = 5) :
    tcpOffset frame = 34 ∧ payloadOffset frame = ethHlen + headerLen frame := by
  have tcp : tcpOffset frame = 34 := by
    rw [tcpOffset, noOptions]
    rfl
  refine ⟨tcp, ?_⟩
  rw [payloadOffset, tcp, headerLen, noOptions, ethHlen, ← Nat.add_assoc]

/-- A packet without a payload is left alone. -/
theorem handleTcDualWrite_empty {frame : Bytes} {client : Client}
    {segment : Segment} (carries : Carries frame client segment)
    (noOptions : field frame 14 1 % 16 = 5) (empty : segment.length = 0) :
    handleTcDualWrite true frame = none := by
  obtain ⟨-, start⟩ := payloadOffset_eq noOptions
  have total := carries.total
  rw [handleTcDualWrite]
  by_cases skipped : passedOver frame = true
  · rw [if_pos skipped]
  · rw [if_neg skipped, if_pos (by omega)]

/-- A packet that the filter reads right becomes an event with its payload. -/
theorem handleTcDualWrite_carried {frame : Bytes} {client : Client}
    {segment : Segment} (carries : Carries frame client segment)
    (noOptions : field frame 14 1 % 16 = 5) (positive : 0 < segment.length)
    (passes : Passes frame segment.length) :
    handleTcDualWrite true frame =
      some
        { srcIp := client.address
          srcPort := client.port
          seq := serial client.isn segment.start
          payloadLen := segment.length
          payload := payloadOf client.stream segment } := by
  obtain ⟨tcp, start⟩ := payloadOffset_eq noOptions
  obtain ⟨ethernet, -, protocol, address, port, dest, seq, header, total,
    whole, payload, -⟩ := carries
  obtain ⟨small, other, flags⟩ := passes
  rw [tcp] at port dest seq header
  rw [start] at total whole payload
  have header' : 5 ≤ field frame 46 1 / 16 := header
  have dest' : field frame 36 2 = 2000 := dest
  have long : ethHlen + 20 + 20 ≤ frame.length := by
    simp only [headerLen, noOptions] at whole
    omega
  have kept : passedOver frame = false := by
    simp only [passedOver, ethernet, protocol, dest', flags, other,
      Bool.or_eq_false_iff, decide_eq_false_iff_not, ne_eq, not_true,
      not_false_eq_true, and_true]
    omega
  have len : field frame 16 2 - headerLen frame = segment.length := by
    omega
  rw [handleTcDualWrite, if_neg (by rw [kept]; decide), if_neg (by omega), len,
    Nat.min_eq_left small, if_neg (by decide), if_neg (by omega), address, port,
    seq, payload]

/-! ## One client -/

/-- What a packet means to the reassembly: its segment, if it has a payload. -/
def readTraffic {ι : Type} : Traffic ι → Option Arrival
  | .packet _ segment _ =>
      if segment.length = 0 then none else some (.segment segment)
  | .send accepted => some (.send accepted)

/-- A held segment and one that arrives share a byte, and the held one does not
just start at the same place and reach as far. -/
def conflicting (start stop start' stop' : Int) : Prop :=
  (start < stop' ∧ start' < stop) ∧ ¬ (start = start' ∧ stop' ≤ stop)

/--
The packet is read right: it has no IP options, and if it has a payload, it
belongs to this client, fits into an event and is none of those that the filter
passes over.
-/
structure Clean {ι : Type} (theClient client : ι) (segment : Segment)
    (frame : Bytes) : Prop where
  noOptions : field frame 14 1 % 16 = 5
  one : 0 < segment.length → client = theClient
  passes : 0 < segment.length → Passes frame segment.length

/--
The segment suits the state that it meets: it lies within half of the sequence
space around the bytes written so far, the pool has a slot if it needs one, and
it overlaps no segment in the pool.
-/
structure Suits (isn : Nat) (reached : RelayState × List Bytes)
    (segment : Segment) : Prop where
  near : (writtenBy reached).length < segment.start + 2 ^ 31 ∧
    segment.stop < (writtenBy reached).length + 2 ^ 31
  pool : PoolSuffices isn reached.1 (.segment segment)
  apart : ∀ node ∈ reached.1.oooPool, node.used = true →
    ¬ conflicting (distance reached.1 node.seq)
      (distance reached.1 node.seq + node.data.length)
      (distance reached.1 (serial isn segment.start))
      (distance reached.1 (serial isn segment.start) + segment.length)

theorem conflicting_distance {segment arriving : Segment} {cursor : Nat} :
    conflicting ((segment.start : Int) - cursor)
        ((segment.start : Int) - cursor + segment.length)
        ((arriving.start : Int) - cursor)
        ((arriving.start : Int) - cursor + arriving.length) ↔
      segment.Conflicts arriving := by
  simp only [conflicting, Segment.Conflicts, Segment.stop]
  omega

/-- What the relay keeps while it serves one client without conflicts. -/
structure Orderly (seen : List Segment) (assembly : Assembly) : Prop where
  complete : assembly.Complete seen
  lined : Lined assembly.cursor assembly.held
  near : ∀ segment, some segment ∈ assembly.held →
    segment.stop < assembly.cursor + 2 ^ 31

theorem orderly_empty : Orderly [] (Assembly.empty oooMax) where
  complete := empty_complete oooMax
  lined := lined_empty oooMax 0
  near := fun _ member => absurd member not_mem_empty

/-- How far the relay has come is how much it has written. -/
theorem cursor_eq_written {isn : Nat} {stream : Bytes}
    {reached : RelayState × List Bytes} {assembly : Assembly}
    (refines : Refines isn stream 0 reached.1 reached.2.flatten assembly)
    (begun : assembly.started = true) :
    (writtenBy reached).length = assembly.cursor := by
  have there := refines.reached begun
  rw [writtenBy, there.written, between_length there.inside, Nat.sub_zero]

/-- A suitable segment keeps the relay orderly. -/
theorem step_orderly {isn : Nat} {stream : Bytes}
    {reached : RelayState × List Bytes} {assembly : Assembly}
    {segment : Segment} {seen : List Segment} (orderly : Orderly seen assembly)
    (refines : Refines isn stream 0 reached.1 reached.2.flatten assembly)
    (positive : 0 < segment.length) (small : segment.length ≤ maxPayloadSize)
    (suits : Suits isn reached segment) :
    Near (assembly.start segment).cursor segment assembly.held ∧
      assembly.Room segment ∧
      Orderly (seen ++ [segment]) (assembly.accept segment) := by
  rcases Bool.eq_false_or_eq_true assembly.started with begun | fresh
  · have same := start_of_started begun segment
    have arriving := suits.near
    rw [cursor_eq_written refines begun] at arriving
    have near : Near (assembly.start segment).cursor segment assembly.held := by
      rw [same]
      refine ⟨arriving, fun other member => ?_⟩
      have ahead := orderly.lined.ahead other member
      have close := orderly.near other member
      omega
    have room := room_of_poolSuffices refines near suits.pool
    have apart : ∀ other, some other ∈ assembly.held →
        ¬ other.Conflicts segment := by
      intro other member
      have expected := (refines.reached begun).expected
      have ahead := orderly.lined.ahead other member
      have close := orderly.near other member
      simp only [Segment.stop] at arriving close
      obtain ⟨node, here, used, numbered, length⟩ :=
        node_of_held refines.pools member
      have free := suits.apart node here used
      rw [numbered, length, distance_serial expected (by omega) (by omega),
        distance_serial expected (by omega) (by omega)] at free
      exact fun conflict => free (conflicting_distance.mpr conflict)
    refine ⟨near, room, ?_, ?_, ?_⟩
    · apply accept_complete orderly.complete positive room
      intro other member _ crosses
      exact apart other member
        (crosses.conflicts (orderly.lined.ahead other member).2)
    · refine accept_lined ?_ ?_ positive room apart
      · rw [same]
        exact orderly.lined
      · rw [same]
        exact orderly.complete.settled
    · intro other member
      have later := le_accept positive room
      rw [same] at later
      rcases mem_accept positive room member with old | rfl
      · have close := orderly.near other old
        omega
      · omega
  · have vacant := (orderly.complete.fresh fresh).2
    have first : (assembly.start segment).cursor = segment.start := by
      rw [Assembly.start, fresh]
      rfl
    have room : assembly.Room segment := by
      intro begun
      rw [fresh] at begun
      exact absurd begun Bool.false_ne_true
    simp only [maxPayloadSize] at small
    refine ⟨⟨?_, fun other member => absurd member (vacant other)⟩, room,
      ?_, ?_, ?_⟩
    · rw [first, Segment.stop]
      omega
    · apply accept_complete orderly.complete positive room
      intro other member
      exact absurd member (vacant other)
    · refine accept_lined ?_ ?_ positive room ?_
      · refine ⟨fun other member => absurd member (vacant other), ?_⟩
        intro _ _ left _ _ slot
        exact absurd (List.mem_of_getElem? slot) (vacant left)
      · intro other member
        exact absurd member (vacant other)
      · intro other member
        exact absurd member (vacant other)
    · intro other member
      have later := le_accept positive room
      rw [first] at later
      rcases mem_accept positive room member with old | rfl
      · exact absurd old (vacant other)
      · simp only [Segment.stop]
        omega

/-! ## Runs -/

section Runs

variable {ι : Type} {clients : ι → Client} {theClient : ι}
  {malloc : Nat → Option (Nat → UInt8)} {buf : Nat → UInt8}
  {traffic : List (Traffic ι)}

/-- The relay after some traffic, with the bytes that went out. -/
abbrev watched (malloc : Nat → Option (Nat → UInt8)) (buf : Nat → UInt8)
    (traffic : List (Traffic ι)) : RelayState × List Bytes :=
  run (watch malloc) (RelayState.initial buf) traffic

/-- Every packet carries a segment of its client's stream. -/
def Carried (clients : ι → Client) (traffic : List (Traffic ι)) : Prop :=
  ∀ client segment frame, .packet client segment frame ∈ traffic →
    Carries frame (clients client) segment

/-- All payloads come from one client, from its first byte on, and each of them
is read right and suits the state that it meets. -/
structure Undisturbed (clients : ι → Client) (theClient : ι)
    (malloc : Nat → Option (Nat → UInt8)) (buf : Nat → UInt8)
    (traffic : List (Traffic ι)) : Prop where
  clean : ∀ client segment frame, .packet client segment frame ∈ traffic →
    Clean theClient client segment frame
  opens : ∀ first, firstStart (traffic.filterMap readTraffic) = some first →
    first = 0
  suits : ∀ front client segment frame,
    front ++ [.packet client segment frame] <+: traffic → 0 < segment.length →
      Suits (clients theClient).isn (watched malloc buf front) segment

theorem Undisturbed.front {front : List (Traffic ι)}
    (undisturbed : Undisturbed clients theClient malloc buf traffic)
    (shorter : front <+: traffic) :
    Undisturbed clients theClient malloc buf front where
  clean := fun client segment frame member =>
    undisturbed.clean client segment frame (shorter.subset member)
  opens := by
    intro first starts
    obtain ⟨rest, rfl⟩ := shorter
    apply undisturbed.opens first
    rw [List.filterMap_append, firstStart_append, starts]
    rfl
  suits := fun before client segment frame longer positive =>
    undisturbed.suits before client segment frame (longer.trans shorter)
      positive

/-- The relay sees the segments of the client. -/
theorem watch_reads (carried : Carried clients traffic)
    (undisturbed : Undisturbed clients theClient malloc buf traffic) :
    ∀ input ∈ traffic, ∀ relay, watch malloc relay input =
      readStep malloc (clients theClient).isn (clients theClient).stream relay
        (readTraffic input) := by
  intro input member relay
  cases input with
  | send accepted => rfl
  | packet client segment frame =>
      have carries := carried client segment frame member
      obtain ⟨noOptions, one, passes⟩ :=
        undisturbed.clean client segment frame member
      rw [watch, receive, readTraffic]
      split_ifs with empty
      · rw [handleTcDualWrite_empty carries noOptions empty]
        rfl
      · have positive := Nat.pos_of_ne_zero empty
        have small := (passes positive).small
        obtain rfl := one positive
        rw [handleTcDualWrite_carried carries noOptions positive
          (passes positive)]
        have fits : ¬ (segment.length = 0 ∨
            maxPayloadSize < segment.length) := by
          omega
        simp only [handleEvent, if_neg fits]
        rfl

/-- The segments with a payload. -/
def payloads (traffic : List (Traffic ι)) : List Segment :=
  segmentsOf (traffic.filterMap readTraffic)

theorem mem_payloads {client : ι} {segment : Segment} {frame : Bytes}
    (member : .packet client segment frame ∈ traffic)
    (positive : 0 < segment.length) : segment ∈ payloads traffic := by
  apply mem_segmentsOf.mpr
  apply List.mem_filterMap.mpr
  refine ⟨_, member, ?_⟩
  rw [readTraffic, if_neg (by omega)]

/-- Without disturbance the relay is an orderly assembly of the stream. -/
theorem watched_orderly (grants : ∀ size, malloc size ≠ none)
    (carried : Carried clients traffic)
    (undisturbed : Undisturbed clients theClient malloc buf traffic) :
    ∃ assembly, Orderly (payloads traffic) assembly ∧
      assembly.started =
        (firstStart (traffic.filterMap readTraffic)).isSome ∧
      Refines (clients theClient).isn (clients theClient).stream 0
        (watched malloc buf traffic).1
        (watched malloc buf traffic).2.flatten assembly := by
  have zero : (firstStart (traffic.filterMap readTraffic)).getD 0 = 0 := by
    cases starts : firstStart (traffic.filterMap readTraffic) with
    | none => rfl
    | some first => exact undisturbed.opens first starts
  rw [← zero]
  apply @run_keeps malloc (clients theClient).isn (clients theClient).stream buf
    (Traffic ι) (watch malloc) readTraffic
    (fun seen assembly => Orderly (payloads seen) assembly) traffic grants
    (watch_reads carried undisturbed) orderly_empty
  · intro front input assembly other orderly
    have same : payloads (front ++ [input]) = payloads front := by
      rw [payloads, List.filterMap_append, segmentsOf_append]
      cases read : readTraffic input with
      | none =>
          rw [List.filterMap_cons_none read]
          exact List.append_nil _
      | some arrival =>
          rw [List.filterMap_cons_some read]
          cases arrival with
          | send accepted => exact List.append_nil _
          | segment piece => exact absurd read (other piece)
    rwa [same]
  · intro front input segment assembly longer read orderly _ refines
    rw [zero] at refines
    cases input with
    | send accepted => exact nomatch read
    | packet client piece frame =>
        rw [readTraffic] at read
        split_ifs at read with empty
        cases read
        have positive := Nat.pos_of_ne_zero empty
        have member : Traffic.packet client segment frame ∈ traffic :=
          longer.subset
            (List.mem_append_right front (List.mem_singleton.mpr rfl))
        have clean := undisturbed.clean client segment frame member
        have inside := (carried client segment frame member).inside
        rw [clean.one positive] at inside
        obtain ⟨near, room, orderly'⟩ := step_orderly orderly refines positive
          (clean.passes positive).small
          (undisturbed.suits front client segment frame longer positive)
        refine ⟨positive, inside, near, room, ?_⟩
        rw [payloads, List.filterMap_append, segmentsOf_append,
          List.filterMap_cons_some
            (show readTraffic (.packet client segment frame) =
              some (.segment segment) by rw [readTraffic, if_neg empty])]
        exact orderly'

/-- What is written is a front part of the client's stream. -/
theorem watched_written (grants : ∀ size, malloc size ≠ none)
    (carried : Carried clients traffic)
    (undisturbed : Undisturbed clients theClient malloc buf traffic) :
    writtenBy (watched malloc buf traffic) <+: (clients theClient).stream := by
  obtain ⟨assembly, -, -, refines⟩ :=
    watched_orderly grants carried undisturbed
  rcases Bool.eq_false_or_eq_true assembly.started with begun | fresh
  · rw [writtenBy, (refines.reached begun).written, between, List.drop_zero]
    exact List.take_prefix _ _
  · rw [writtenBy, (refines.fresh fresh).2.2]
    exact List.nil_prefix

/-- When the whole stream has passed, all of it is written. -/
theorem watched_complete (grants : ∀ size, malloc size ≠ none)
    (carried : Carried clients traffic)
    (undisturbed : Undisturbed clients theClient malloc buf traffic)
    (all : ∀ place < (clients theClient).stream.length,
      ∃ segment ∈ payloads traffic, segment.Has place) :
    writtenBy (watched malloc buf traffic) = (clients theClient).stream := by
  apply (watched_written grants carried undisturbed).eq_of_length_le
  obtain ⟨assembly, orderly, -, refines⟩ :=
    watched_orderly grants carried undisturbed
  rcases Bool.eq_false_or_eq_true assembly.started with begun | fresh
  · rw [cursor_eq_written refines begun]
    exact orderly.complete.reaches (Nat.zero_le _)
      (fun place _ below => all place below)
  · by_contra short
    obtain ⟨segment, member, -⟩ := all 0 (by omega)
    rw [(orderly.complete.fresh fresh).1] at member
    exact absurd member List.not_mem_nil

theorem commands_eq_nil {client : Client} (silent : client.stream = []) :
    client.commands = [] := by
  apply List.eq_nil_iff_forall_not_mem.mpr
  intro command member
  exact client.nonempty command member
    (List.flatten_eq_nil_iff.mp silent command member)

/-- The commands of the only client that sends any. -/
theorem interleaves_single [DecidableEq ι]
    (silent : ∀ client, client ≠ theClient → (clients client).stream = []) :
    Interleaves clients (clients theClient).stream := by
  refine ⟨(clients theClient).commands.map (fun command =>
    (theClient, command)), ?_, ?_⟩
  · rw [List.map_map]
    exact congrArg List.flatten (List.map_id _).symm
  · intro client
    rw [List.filter_map, List.map_map]
    by_cases same : client = theClient
    · subst same
      rw [List.filter_eq_self.mpr (fun _ _ => by simp)]
      exact List.map_id _
    · rw [List.filter_eq_nil_iff.mpr (fun _ _ => by simpa using Ne.symm same),
        commands_eq_nil (silent client same)]
      rfl

/--
In every run without disturbance and at every moment of it, the relay has written
a front part of the one client's stream; and when the streams of all clients have
passed, it has written their commands, each client's in its order and each once.
-/
theorem relay_forwards_commands [DecidableEq ι]
    {front : List (Traffic ι)} (grants : ∀ size, malloc size ≠ none)
    (carried : Carried clients traffic)
    (undisturbed : Undisturbed clients theClient malloc buf traffic)
    (reached : front <+: traffic) :
    writtenBy (watched malloc buf front) <+: (clients theClient).stream ∧
      ((∀ client, ∀ place < (clients client).stream.length,
          ∃ segment frame, .packet client segment frame ∈ front ∧
            segment.Has place) →
        Interleaves clients (writtenBy (watched malloc buf front))) := by
  have carriedFront : Carried clients front := fun client segment frame member =>
    carried client segment frame (reached.subset member)
  have still := undisturbed.front reached
  refine ⟨watched_written grants carriedFront still, ?_⟩
  intro all
  have written : writtenBy (watched malloc buf front) =
      (clients theClient).stream := by
    apply watched_complete grants carriedFront still
    intro place below
    obtain ⟨segment, frame, member, has⟩ := all theClient place below
    refine ⟨segment, mem_payloads member ?_, has⟩
    simp only [Segment.Has, Segment.stop] at has
    omega
  rw [written]
  apply interleaves_single
  intro client different
  by_contra speaks
  obtain ⟨segment, frame, member, has⟩ :=
    all client 0 (List.length_pos_of_ne_nil speaks)
  apply different
  apply (still.clean client segment frame member).one
  simp only [Segment.Has, Segment.stop] at has
  omega

end Runs

/-! ## Packets one by one -/

/-- A number in network byte order, in so many bytes. -/
def beBytes : Nat → Nat → Bytes
  | 0, _ => []
  | width + 1, value =>
      UInt8.ofNat (value / 256 ^ width % 256) :: beBytes width value

/-- A frame with headers of the usual length and the flags `PSH` and `ACK`. -/
def tcpFrame (address port seq : Nat) (payload : Bytes) : Bytes :=
  List.replicate 12 0 ++ [8, 0] ++
    [0x45, 0] ++ beBytes 2 (40 + payload.length) ++ [0, 0, 0, 0, 64, 6, 0, 0] ++
    beBytes 4 address ++ [192, 168, 37, 128] ++
    beBytes 2 port ++ beBytes 2 2000 ++ beBytes 4 seq ++ [0, 0, 0, 0] ++
    [0x50, 0x18] ++ [0, 0, 0, 0, 0, 0] ++ payload

/-- The frame of a client with a segment of its stream. -/
def frameOf (client : Client) (segment : Segment) : Bytes :=
  tcpFrame client.address client.port (client.isn + segment.start)
    (payloadOf client.stream segment)

/-- The packets of a client with these segments, behind each other, and so many
bytes go out. -/
def packetsOf (client : Client) (segments : List Segment) (accepted : Nat) :
    List (Traffic Unit) :=
  segments.map (fun segment => .packet () segment (frameOf client segment)) ++
    [.send accepted]

theorem mem_packetsOf {client : Client} {segments : List Segment}
    {accepted : Nat} {sender : Unit} {segment : Segment} {frame : Bytes} :
    .packet sender segment frame ∈ packetsOf client segments accepted ↔
      segment ∈ segments ∧ frame = frameOf client segment := by
  rw [packetsOf, List.mem_append, List.mem_map]
  constructor
  · rintro (⟨other, member, same⟩ | last)
    · cases same
      exact ⟨member, rfl⟩
    · cases List.mem_singleton.mp last
  · rintro ⟨member, rfl⟩
    exact Or.inl ⟨segment, member, rfl⟩

/-- Every place of which a segment has the byte has passed. -/
theorem passed_packetsOf {segments : List Segment} {count : Nat}
    (covered : ∀ place < count, ∃ segment ∈ segments,
      segment.start ≤ place ∧ place < segment.stop)
    (client : Client) (accepted : Nat) :
    ∀ place < count, ∃ segment frame,
      .packet () segment frame ∈ packetsOf client segments accepted ∧
        segment.Has place := by
  intro place below
  obtain ⟨segment, member, has⟩ := covered place below
  exact ⟨segment, _, mem_packetsOf.mpr ⟨member, rfl⟩, has⟩

instance (frame : Bytes) (client : Client) (segment : Segment) :
    Decidable (Carries frame client segment) :=
  decidable_of_iff
    (field frame 12 2 = 0x0800 ∧ 5 ≤ field frame 14 1 % 16 ∧
      field frame 23 1 = 6 ∧ field frame 26 4 = client.address ∧
      field frame (tcpOffset frame) 2 = client.port ∧
      field frame (tcpOffset frame + 2) 2 = 2000 ∧
      UInt32.ofNat (field frame (tcpOffset frame + 4) 4) =
        serial client.isn segment.start ∧
      5 ≤ field frame (tcpOffset frame + 12) 1 / 16 ∧
      ethHlen + field frame 16 2 = payloadOffset frame + segment.length ∧
      payloadOffset frame + segment.length ≤ frame.length ∧
      (frame.drop (payloadOffset frame)).take segment.length =
        payloadOf client.stream segment ∧
      segment.stop ≤ client.stream.length)
    ⟨fun ⟨ethernet, ipHeader, protocol, address, port, dest, seq, tcpHeader,
        total, whole, payload, inside⟩ =>
      ⟨ethernet, ipHeader, protocol, address, port, dest, seq, tcpHeader,
        total, whole, payload, inside⟩,
    fun carries =>
      ⟨carries.ethernet, carries.ipHeader, carries.protocol, carries.address,
        carries.port, carries.dest, carries.seq, carries.tcpHeader,
        carries.total, carries.whole, carries.payload, carries.inside⟩⟩

instance (frame : Bytes) (length : Nat) : Decidable (Passes frame length) :=
  decidable_of_iff
    (length ≤ maxPayloadSize ∧ field frame 26 4 ≠ slaveAddress ∧
      field frame 47 1 % 8 = 0)
    ⟨fun ⟨small, address, flags⟩ => ⟨small, address, flags⟩,
      fun passes => ⟨passes.small, passes.address, passes.flags⟩⟩

instance (start stop start' stop' : Int) :
    Decidable (conflicting start stop start' stop') :=
  inferInstanceAs (Decidable (_ ∧ _))

instance (isn : Nat) (reached : RelayState × List Bytes) (segment : Segment) :
    Decidable (Suits isn reached segment) :=
  decidable_of_iff
    (((writtenBy reached).length < segment.start + 2 ^ 31 ∧
        segment.stop < (writtenBy reached).length + 2 ^ 31) ∧
      PoolSuffices isn reached.1 (.segment segment) ∧
      ∀ node ∈ reached.1.oooPool, node.used = true →
        ¬ conflicting (distance reached.1 node.seq)
          (distance reached.1 node.seq + node.data.length)
          (distance reached.1 (serial isn segment.start))
          (distance reached.1 (serial isn segment.start) + segment.length))
    ⟨fun ⟨near, pool, apart⟩ => ⟨near, pool, apart⟩,
      fun suits => ⟨suits.near, suits.pool, suits.apart⟩⟩

/-- The packets of a client pass one by one: each is read right, the first one
starts the stream, and each suits the state that it meets. -/
structure PassOneByOne (client : Client) (segments : List Segment)
    (accepted : Nat) : Prop where
  read : ∀ segment ∈ segments,
    Carries (frameOf client segment) client segment ∧
      field (frameOf client segment) 14 1 % 16 = 5 ∧
      Passes (frameOf client segment) segment.length
  opens : ∀ first, firstStart ((packetsOf client segments
    accepted).filterMap readTraffic) = some first → first = 0
  suits : ∀ index, ∀ inside : index < segments.length,
    Suits client.isn
      (watched (fun _ => some zeros) zeros
        ((packetsOf client segments accepted).take index)) segments[index]

section PassOneByOne

variable {client : Client} {segments : List Segment} {accepted : Nat}

theorem PassOneByOne.carried
    (passes : PassOneByOne client segments accepted) :
    Carried (fun _ => client) (packetsOf client segments accepted) := by
  intro sender segment frame member
  obtain ⟨inside, rfl⟩ := mem_packetsOf.mp member
  exact (passes.read segment inside).1

theorem PassOneByOne.undisturbed
    (passes : PassOneByOne client segments accepted) :
    Undisturbed (fun _ => client) () (fun _ => some zeros) zeros
      (packetsOf client segments accepted) where
  clean := by
    intro sender segment frame member
    obtain ⟨inside, rfl⟩ := mem_packetsOf.mp member
    obtain ⟨-, noOptions, proper⟩ := passes.read segment inside
    exact ⟨noOptions, fun _ => rfl, fun _ => proper⟩
  opens := passes.opens
  suits := by
    rintro front sender segment frame ⟨rest, shape⟩ _
    have before : (packetsOf client segments accepted).take front.length =
        front := by
      rw [← shape, List.append_assoc]
      exact List.take_left
    have here : (packetsOf client segments accepted)[front.length]? =
        some (.packet sender segment frame) := by
      rw [← shape, List.append_assoc, List.getElem?_append_right le_rfl,
        Nat.sub_self]
      rfl
    rw [packetsOf] at here
    rcases Nat.lt_or_ge front.length segments.length with inside | behind
    · rw [List.getElem?_append_left (by rw [List.length_map]; exact inside),
        List.getElem?_map, List.getElem?_eq_getElem inside] at here
      cases here
      have suits := passes.suits front.length inside
      rw [before] at suits
      exact suits
    · rw [List.getElem?_append_right (by rw [List.length_map]; exact behind)]
        at here
      exact nomatch List.mem_singleton.mp (List.mem_of_getElem? here)

end PassOneByOne

theorem zeros_granted : ∀ size, (fun _ : Nat => some zeros) size ≠ none := by
  intro size missing
  exact nomatch missing

/-! ## One client and two -/

/-- A client at `10.0.0.1` with one command. -/
def pinging : Client where
  address := 0x0a000001
  port := 40000
  isn := 2 ^ 32 - 3
  commands := [ascii "*1\r\n$4\r\nPING\r\n"]
  nonempty := by decide

/-- Its stream in three packets, the second one out of order; the sequence
numbers wrap around between them. -/
def pingTraffic : List (Traffic Unit) :=
  packetsOf pinging [⟨0, 4⟩, ⟨8, 6⟩, ⟨4, 4⟩] 5

theorem pingTraffic_passes :
    PassOneByOne pinging [⟨0, 4⟩, ⟨8, 6⟩, ⟨4, 4⟩] 5 where
  read := by decide +kernel
  opens := by
    intro first starts
    exact (Option.some.inj starts).symm
  suits := by decide +kernel

/-- The command of a single client reaches the slave, though its second packet
comes before the third one. -/
theorem relay_forwards_commands_ping :
    Interleaves (fun _ : Unit => pinging)
      (writtenBy (watched (fun _ => some zeros) zeros pingTraffic)) := by
  have forwards := @relay_forwards_commands Unit (fun _ => pinging) ()
    (fun _ => some zeros) zeros pingTraffic inferInstance pingTraffic
    zeros_granted pingTraffic_passes.carried pingTraffic_passes.undisturbed
    (List.prefix_refl pingTraffic)
  exact forwards.2 (fun _ => passed_packetsOf (by decide) pinging 5)

/-- A second client with another command. -/
def getting : Client where
  address := 0x0a000002
  port := 40000
  isn := 5000
  commands := [ascii "*2\r\n$3\r\nGET\r\n$1\r\nk\r\n"]
  nonempty := by decide

/-- The one packet of the first client. -/
def pingPacket {ι : Type} (client : ι) : Traffic ι :=
  .packet client ⟨0, 14⟩
    (tcpFrame 0x0a000001 40000 (2 ^ 32 - 3) (ascii "*1\r\n$4\r\nPING\r\n"))

theorem pingPacket_carries :
    Carries (tcpFrame 0x0a000001 40000 (2 ^ 32 - 3)
      (ascii "*1\r\n$4\r\nPING\r\n")) pinging ⟨0, 14⟩ := by
  constructor <;> decide +kernel

/-- The one packet of the second client. -/
def getPacket {ι : Type} (client : ι) : Traffic ι :=
  .packet client ⟨0, 20⟩
    (tcpFrame 0x0a000002 40000 5000
      (ascii "*2\r\n$3\r\nGET\r\n$1\r\nk\r\n"))

theorem getPacket_carries :
    Carries (tcpFrame 0x0a000002 40000 5000
      (ascii "*2\r\n$3\r\nGET\r\n$1\r\nk\r\n")) getting ⟨0, 20⟩ := by
  constructor <;> decide +kernel

/-- One client pings, the other one gets. -/
def twoClients (client : Bool) : Client :=
  if client then getting else pinging

/-- The packets of the two clients, one of each. -/
def twoPackets : List (Traffic Bool) :=
  [pingPacket false, getPacket true]

/-- With two clients commands are lost: both packets have passed, but the one of
the second client lies ahead of the cursor of the first and waits in the pool
for ever. -/
theorem relay_loses_commands :
    Carried twoClients twoPackets ∧
      (∀ client, ∀ place < (twoClients client).stream.length,
        ∃ segment frame, .packet client segment frame ∈ twoPackets ∧
          segment.Has place) ∧
      ¬ Interleaves twoClients
        (writtenBy (watched (fun _ => some zeros) zeros twoPackets)) := by
  refine ⟨?_, ?_, ?_⟩
  · intro client segment frame member
    rcases List.mem_cons.mp member with same | later
    · cases same
      exact pingPacket_carries
    · cases List.mem_singleton.mp later
      exact getPacket_carries
  · intro client place below
    cases client with
    | false =>
        exact ⟨⟨0, 14⟩, _, List.mem_cons_self, Nat.zero_le _, below⟩
    | true =>
        exact ⟨⟨0, 20⟩, _, List.mem_cons_of_mem _ List.mem_cons_self,
          Nat.zero_le _, below⟩
  · rintro ⟨order, written, projected⟩
    have only : writtenBy (watched (fun _ => some zeros) zeros twoPackets) =
        ascii "*1\r\n$4\r\nPING\r\n" := by
      decide +kernel
    have listed : ascii "*2\r\n$3\r\nGET\r\n$1\r\nk\r\n" ∈
        (order.filter (fun entry => entry.1 = true)).map Prod.snd := by
      rw [projected true]
      exact List.mem_singleton.mpr rfl
    obtain ⟨entry, inFilter, same⟩ := List.mem_map.mp listed
    have lost : (107 : UInt8) ∈ (order.map Prod.snd).flatten := by
      apply List.mem_flatten.mpr
      refine ⟨entry.2, List.mem_map_of_mem (List.mem_filter.mp inFilter).1,
        ?_⟩
      rw [same]
      decide
    rw [← written, only] at lost
    exact absurd lost (by decide)

end Kivo.Relay.Filter
