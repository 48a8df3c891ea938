import Kivo.Clib.Memory
import Kivo.Clib.Ring

/-!
# The ring buffer of the relay

The relay collects the bytes for the slave in a ring that `rb_write` enlarges
when it is full, and that `rb_send` drains from its head.  Seen from outside the
ring is a queue of bytes: a write appends, a send takes from the front, and
moving the contents to a larger buffer leaves the queue as it was.
-/

namespace Kivo.Relay.Ring

open Kivo.Clib.Memory
open Kivo.Clib.Ring

/-- `struct ring_buf`. -/
structure RingBuf where
  buf : Nat → UInt8
  size : Nat
  head : Nat
  tail : Nat
  bytes : Nat

/-- `rb_init`, when the allocation succeeds. -/
def rbInit (buf : Nat → UInt8) (size : Nat) : RingBuf :=
  { buf := buf, size := size, head := 0, tail := 0, bytes := 0 }

/-- The bytes in the ring, oldest first. -/
def RingBuf.contents (rb : RingBuf) : Bytes :=
  ringContents rb.size rb.buf rb.head rb.bytes

/-! ## Writing -/

/-- The loop that doubles the size until the bytes fit. -/
def growSize : Nat → Nat → Nat → Nat
  | 0, newSize, _ => newSize
  | fuel + 1, newSize, needed =>
      if newSize < needed then growSize fuel (newSize * 2) needed else newSize

/-- The loop that moves the contents to the start of a new buffer. -/
def moveLoop (rb : RingBuf) :
    Nat → (Nat → UInt8) → Nat → Nat → Nat → Nat → UInt8
  | 0, newBuf, _, _, _ => newBuf
  | fuel + 1, newBuf, pos, h, remaining =>
      if 0 < remaining then
        let chunk := min (rb.size - h) remaining
        moveLoop rb fuel
          (setSlots newBuf pos
            ((List.range chunk).map (fun index => rb.buf (h + index))))
          (pos + chunk) ((h + chunk) % rb.size) (remaining - chunk)
      else newBuf

/-- The larger ring, when `malloc` grants it. -/
def grow (malloc : Nat → Option (Nat → UInt8)) (rb : RingBuf) (len : Nat) :
    Option RingBuf :=
  if rb.size < rb.bytes + len then
    let newSize := growSize (rb.bytes + len) (rb.size * 2) (rb.bytes + len)
    match malloc newSize with
    | none => none
    | some newBuf =>
        some
          { buf := moveLoop rb rb.bytes newBuf 0 rb.head rb.bytes
            size := newSize
            head := 0
            tail := rb.bytes
            bytes := rb.bytes }
  else some rb

/-- Copy the data behind the tail, in one piece or in two. -/
def store (rb : RingBuf) (data : Bytes) : RingBuf :=
  let spaceToEnd := rb.size - rb.tail
  if data.length ≤ spaceToEnd then
    let tail := rb.tail + data.length
    { rb with
      buf := setSlots rb.buf rb.tail data
      tail := if tail = rb.size then 0 else tail
      bytes := rb.bytes + data.length }
  else
    { rb with
      buf := setSlots (setSlots rb.buf rb.tail (data.take spaceToEnd)) 0
        (data.drop spaceToEnd)
      tail := data.length - spaceToEnd
      bytes := rb.bytes + data.length }

/-- `rb_write`; `none` is the result `-1`. -/
def rbWrite (malloc : Nat → Option (Nat → UInt8)) (rb : RingBuf)
    (data : Bytes) : Option RingBuf :=
  (grow malloc rb data.length).map (fun larger => store larger data)

/-! ## Sending -/

/-- The bytes that `rb_send` offers to the socket. -/
def RingBuf.available (rb : RingBuf) : Nat :=
  if rb.head < rb.tail then min (rb.tail - rb.head) rb.bytes
  else if rb.tail < rb.head then min (rb.size - rb.head) rb.bytes
  else 0

/--
`rb_send` when the socket accepts so many of the offered bytes, with the bytes
that it took.  A call that fails accepts none.
-/
def rbSend (rb : RingBuf) (accepted : Nat) : RingBuf × Bytes :=
  let sent := min accepted rb.available
  let head := rb.head + sent
  ({ rb with
      head := if head = rb.size then 0 else head
      bytes := rb.bytes - sent },
    (List.range sent).map (fun index => rb.buf (rb.head + index)))

/-! ## The queue -/

/-- The indices of a ring are in step. -/
structure RingBuf.InStep (rb : RingBuf) : Prop where
  head : rb.head < rb.size
  bytes : rb.bytes ≤ rb.size
  tail : rb.tail = (rb.head + rb.bytes) % rb.size

theorem rbInit_inStep (buf : Nat → UInt8) {size : Nat} (positive : 0 < size) :
    (rbInit buf size).InStep where
  head := positive
  bytes := Nat.zero_le size
  tail := (Nat.zero_mod size).symm

@[simp]
theorem rbInit_contents (buf : Nat → UInt8) (size : Nat) :
    (rbInit buf size).contents = [] :=
  rfl

theorem growSize_ge (needed : Nat) :
    ∀ fuel newSize, needed ≤ newSize * 2 ^ fuel →
      needed ≤ growSize fuel newSize needed
  | 0, newSize, enough => by simpa [growSize] using enough
  | fuel + 1, newSize, enough => by
      rw [growSize]
      split_ifs with short
      · apply growSize_ge needed fuel
        rwa [Nat.mul_assoc, ← Nat.pow_succ']
      · exact Nat.le_of_not_lt short

theorem le_growSize (needed : Nat) :
    ∀ fuel newSize, newSize ≤ growSize fuel newSize needed
  | 0, newSize => le_refl newSize
  | fuel + 1, newSize => by
      rw [growSize]
      split_ifs
      · exact (Nat.le_mul_of_pos_right newSize (by decide)).trans
          (le_growSize needed fuel (newSize * 2))
      · exact le_refl newSize

/-- The new buffer has the old bytes in order behind those already moved. -/
theorem moveLoop_apply {rb : RingBuf} :
    ∀ fuel newBuf pos h remaining, remaining ≤ fuel → h < rb.size →
      (∀ index < remaining,
        moveLoop rb fuel newBuf pos h remaining (pos + index) =
          rb.buf ((h + index) % rb.size)) ∧
      ∀ index < pos,
        moveLoop rb fuel newBuf pos h remaining index = newBuf index
  | 0, newBuf, pos, h, remaining, enough, small => by
      refine ⟨fun index below => ?_, fun index below => rfl⟩
      omega
  | fuel + 1, newBuf, pos, h, remaining, enough, small => by
      rw [moveLoop]
      split_ifs with positive
      · obtain ⟨moved, kept⟩ := moveLoop_apply fuel
          (setSlots newBuf pos ((List.range (min (rb.size - h) remaining)).map
            (fun index => rb.buf (h + index))))
          (pos + min (rb.size - h) remaining)
          ((h + min (rb.size - h) remaining) % rb.size)
          (remaining - min (rb.size - h) remaining) (by omega)
          (Nat.mod_lt _ (by omega))
        constructor
        · intro index below
          rcases Nat.lt_or_ge index (min (rb.size - h) remaining) with
            near | far
          · rw [kept _ (by omega), setSlots_inside _ _ (by simpa using near),
              List.getElem_map, List.getElem_range, Nat.mod_eq_of_lt (by omega)]
          · have later := moved (index - min (rb.size - h) remaining) (by omega)
            rw [Nat.mod_add_mod] at later
            rw [show pos + index = pos + min (rb.size - h) remaining +
              (index - min (rb.size - h) remaining) by omega, later]
            congr 2
            omega
        · intro index below
          rw [kept index (by omega), setSlots_outside _ (Or.inl below)]
      · refine ⟨fun index below => ?_, fun index below => rfl⟩
        omega

/-- A granted ring holds the same bytes and has room for the new ones. -/
theorem grow_spec {malloc : Nat → Option (Nat → UInt8)} {rb larger : RingBuf}
    {len : Nat} (inStep : rb.InStep) (granted : grow malloc rb len = some larger) :
    larger.InStep ∧ larger.contents = rb.contents ∧
      larger.bytes + len ≤ larger.size := by
  rw [grow] at granted
  split_ifs at granted with full
  · dsimp only at granted
    split at granted
    · exact nomatch granted
    · rename_i newBuf _
      have newSize : rb.size * 2 ≤
          growSize (rb.bytes + len) (rb.size * 2) (rb.bytes + len) :=
        le_growSize _ _ _
      have fits : rb.bytes + len ≤
          growSize (rb.bytes + len) (rb.size * 2) (rb.bytes + len) := by
        apply growSize_ge
        have power : rb.bytes + len < 2 ^ (rb.bytes + len) := Nat.lt_two_pow_self
        have positive : 1 ≤ rb.size * 2 := by
          have := inStep.head
          omega
        calc
          rb.bytes + len ≤ 1 * 2 ^ (rb.bytes + len) := by omega
          _ ≤ rb.size * 2 * 2 ^ (rb.bytes + len) :=
            Nat.mul_le_mul_right _ positive
      have sizes := inStep.bytes
      have headSmall := inStep.head
      obtain ⟨moved, -⟩ := moveLoop_apply rb.bytes newBuf 0 rb.head rb.bytes
        (le_refl rb.bytes) inStep.head
      cases granted
      refine ⟨⟨?_, ?_, ?_⟩, ?_, fits⟩
      · show 0 < growSize _ _ _
        omega
      · show rb.bytes ≤ growSize _ _ _
        omega
      · show rb.bytes = (0 + rb.bytes) % growSize _ _ _
        rw [Nat.zero_add, Nat.mod_eq_of_lt (by omega)]
      · simp only [RingBuf.contents, ringContents]
        apply List.map_congr_left
        intro index member
        have below := List.mem_range.mp member
        rw [Nat.mod_eq_of_lt (by omega)]
        exact moved index below
  · cases granted
    exact ⟨inStep, rfl, Nat.le_of_not_lt full⟩

theorem store_spec {rb : RingBuf} {data : Bytes} (inStep : rb.InStep)
    (room : rb.bytes + data.length ≤ rb.size) :
    (store rb data).InStep ∧
      (store rb data).contents = rb.contents ++ data := by
  have headSmall := inStep.head
  have tailSmall : rb.tail < rb.size := by
    rw [inStep.tail]
    exact Nat.mod_lt _ (by omega)
  rw [store]
  split_ifs with straight
  · refine ⟨⟨headSmall, room, ?_⟩, ?_⟩
    · show (if rb.tail + data.length = rb.size then 0
          else rb.tail + data.length) =
        (rb.head + (rb.bytes + data.length)) % rb.size
      rw [← Nat.add_assoc, ← Nat.mod_add_mod, ← inStep.tail]
      split_ifs with ends
      · rw [ends, Nat.mod_self]
      · rw [Nat.mod_eq_of_lt (by omega)]
    · show ringContents rb.size (setSlots rb.buf rb.tail data) rb.head
        (rb.bytes + data.length) = _
      rw [inStep.tail, ringContents_setSlots rb.buf room
        (by rw [← inStep.tail]; omega)]
      rfl
  · refine ⟨⟨headSmall, room, ?_⟩, ?_⟩
    · show data.length - (rb.size - rb.tail) =
        (rb.head + (rb.bytes + data.length)) % rb.size
      rw [← Nat.add_assoc, ← Nat.mod_add_mod, ← inStep.tail,
        Nat.mod_eq_sub_mod (by omega), Nat.mod_eq_of_lt (by omega)]
      omega
    · show ringContents rb.size (setSlots (setSlots rb.buf rb.tail
        (data.take (rb.size - rb.tail))) 0 (data.drop (rb.size - rb.tail)))
        rb.head (rb.bytes + data.length) = _
      rw [inStep.tail, ringContents_setSlots_wrapped rb.buf (by omega) room
        (by rw [← inStep.tail]; omega)]
      rfl

/-- A write appends to the queue. -/
theorem rbWrite_spec {malloc : Nat → Option (Nat → UInt8)} {rb next : RingBuf}
    {data : Bytes} (inStep : rb.InStep)
    (written : rbWrite malloc rb data = some next) :
    next.InStep ∧ next.contents = rb.contents ++ data := by
  obtain ⟨larger, granted, rfl⟩ := Option.map_eq_some_iff.mp written
  obtain ⟨largerInStep, same, room⟩ := grow_spec inStep granted
  obtain ⟨storedInStep, appended⟩ := store_spec largerInStep room
  exact ⟨storedInStep, appended.trans (by rw [same])⟩

/-- A write succeeds when every allocation does. -/
theorem rbWrite_granted {malloc : Nat → Option (Nat → UInt8)} (rb : RingBuf)
    (data : Bytes) (grants : ∀ size, malloc size ≠ none) :
    ∃ next, rbWrite malloc rb data = some next := by
  rw [rbWrite, grow]
  split_ifs with full
  · obtain ⟨newBuf, granted⟩ := Option.ne_none_iff_exists'.mp
      (grants (growSize (rb.bytes + data.length) (rb.size * 2)
        (rb.bytes + data.length)))
    simp only [granted]
    exact ⟨_, rfl⟩
  · exact ⟨_, rfl⟩

theorem RingBuf.InStep.available_le {rb : RingBuf} (inStep : rb.InStep) :
    rb.available ≤ rb.bytes ∧ rb.head + rb.available ≤ rb.size := by
  have headSmall := inStep.head
  have tailSmall : rb.tail < rb.size := by
    rw [inStep.tail]
    exact Nat.mod_lt _ (by omega)
  rw [RingBuf.available]
  split_ifs <;> omega

/-- The bytes from the head on are the front of the queue. -/
theorem RingBuf.InStep.front {rb : RingBuf} (inStep : rb.InStep) {count : Nat}
    (offered : count ≤ rb.available) :
    (List.range count).map (fun index => rb.buf (rb.head + index)) =
      rb.contents.take count := by
  obtain ⟨within, inside⟩ := inStep.available_le
  rw [RingBuf.contents, ringContents, ← List.map_take, List.take_range,
    Nat.min_eq_left (offered.trans within)]
  apply List.map_congr_left
  intro index member
  have below := List.mem_range.mp member
  rw [Nat.mod_eq_of_lt (by omega)]

/-- A send takes bytes from the front of the queue. -/
theorem rbSend_spec {rb : RingBuf} (accepted : Nat) (inStep : rb.InStep) :
    (rbSend rb accepted).1.InStep ∧
      (rbSend rb accepted).2 ++ (rbSend rb accepted).1.contents =
        rb.contents := by
  obtain ⟨within, inside⟩ := inStep.available_le
  have headSmall := inStep.head
  have bytesSmall := inStep.bytes
  generalize sentEq : min accepted rb.available = sent
  have sentLe : sent ≤ rb.available := by omega
  have headEq : (if rb.head + sent = rb.size then 0 else rb.head + sent) =
      (rb.head + sent) % rb.size := by
    split_ifs with ends
    · rw [ends, Nat.mod_self]
    · rw [Nat.mod_eq_of_lt (by omega)]
  have taken := inStep.front sentLe
  simp only [rbSend, sentEq, headEq, taken]
  refine ⟨⟨?_, ?_, ?_⟩, ?_⟩
  · exact Nat.mod_lt _ (by omega)
  · show rb.bytes - sent ≤ rb.size
    omega
  · show rb.tail = ((rb.head + sent) % rb.size + (rb.bytes - sent)) % rb.size
    rw [Nat.mod_add_mod, inStep.tail]
    congr 1
    omega
  · show rb.contents.take sent ++
      ringContents rb.size rb.buf ((rb.head + sent) % rb.size)
        (rb.bytes - sent) = rb.contents
    rw [ringContents_drop]
    exact List.take_append_drop sent rb.contents

end Kivo.Relay.Ring
