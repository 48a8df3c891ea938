import Mathlib.Data.List.Basic
import Mathlib.Data.Nat.Basic
import Mathlib.Order.Basic

/-!
# Putting a stream together from its segments

Segments of a stream arrive in any order, with duplicates and overlaps.  An
assembly keeps the position up to which the stream is complete and a bounded
pool of segments that start further on; positions are natural numbers here.
What it may promise depends on how the pieces overlap: a segment in the pool is
only ever taken up at its first byte, so one whose start has been passed is lost
with its end.
-/

namespace Kivo.Relay.Segments

/-- A piece of a stream: where it starts, and how many bytes it has. -/
structure Segment where
  start : Nat
  length : Nat
deriving DecidableEq, Repr

/-- The position behind the last byte. -/
def Segment.stop (segment : Segment) : Nat :=
  segment.start + segment.length

/-- The segment has the byte at this position. -/
def Segment.Has (segment : Segment) (position : Nat) : Prop :=
  segment.start ≤ position ∧ position < segment.stop

/-- An assembly with its pool; an empty slot is `none`. -/
structure Assembly where
  started : Bool
  cursor : Nat
  held : List (Option Segment)
deriving DecidableEq, Repr

/-- An assembly that has seen nothing. -/
def Assembly.empty (capacity : Nat) : Assembly :=
  { started := false, cursor := 0, held := List.replicate capacity none }

/-- The slot holds a segment that starts here. -/
def startsAt (position : Nat) (slot : Option Segment) : Bool :=
  slot.any (fun segment => segment.start == position)

@[simp]
theorem startsAt_iff {position : Nat} {slot : Option Segment} :
    startsAt position slot = true ↔
      ∃ segment, slot = some segment ∧ segment.start = position := by
  cases slot with
  | none => simp [startsAt]
  | some segment => simp [startsAt]

/-- Take up held segments as long as one starts at the cursor. -/
def advance :
    Nat → Nat → List (Option Segment) → Nat × List (Option Segment)
  | 0, cursor, held => (cursor, held)
  | fuel + 1, cursor, held =>
      match held.findIdx? (startsAt cursor) with
      | none => (cursor, held)
      | some index =>
          advance fuel
            (((held.getD index none).map Segment.stop).getD cursor)
            (held.set index none)

/-- Move the cursor to a position and take up what starts there. -/
def Assembly.moveTo (assembly : Assembly) (position : Nat) : Assembly :=
  let reached := advance assembly.held.length position assembly.held
  { assembly with cursor := reached.1, held := reached.2 }

/-- Hold a segment, unless one with the same start is held. -/
def Assembly.insert (assembly : Assembly) (segment : Segment) : Assembly :=
  match assembly.held.findIdx? (startsAt segment.start) with
  | some _ => assembly
  | none =>
      match assembly.held.findIdx? Option.isNone with
      | none =>
          { assembly with
            started := false
            held := List.replicate assembly.held.length none }
      | some index =>
          { assembly with held := assembly.held.set index (some segment) }

/-- The first segment fixes the cursor. -/
def Assembly.start (assembly : Assembly) (segment : Segment) : Assembly :=
  if assembly.started then assembly
  else { assembly with started := true, cursor := segment.start }

theorem start_of_started {assembly : Assembly}
    (begun : assembly.started = true) (segment : Segment) :
    assembly.start segment = assembly :=
  if_pos begun

/-- A segment arrives. -/
def Assembly.accept (assembly : Assembly) (segment : Segment) : Assembly :=
  let assembly := assembly.start segment
  if segment.start = assembly.cursor then assembly.moveTo segment.stop
  else if assembly.cursor < segment.start then assembly.insert segment
  else if assembly.cursor < segment.stop then assembly.moveTo segment.stop
  else assembly

/-- There is a free slot if the segment needs one. -/
def Assembly.Room (assembly : Assembly) (segment : Segment) : Prop :=
  assembly.started = true → assembly.cursor < segment.start →
    assembly.held.findIdx? (startsAt segment.start) = none →
      assembly.held.findIdx? Option.isNone ≠ none

/-! ## Taking up held segments -/

theorem held_at_found {held : List (Option Segment)} {position index : Nat}
    (found : held.findIdx? (startsAt position) = some index) :
    ∃ segment, held[index]? = some (some segment) ∧
      segment.start = position := by
  obtain ⟨bound, here, -⟩ := List.findIdx?_eq_some_iff_getElem.mp found
  obtain ⟨segment, slot, starts⟩ := startsAt_iff.mp here
  exact ⟨segment, by rw [List.getElem?_eq_getElem bound, slot], starts⟩

/-- One round: a segment that starts at the cursor leaves the pool. -/
theorem advance_succ_of_found {held : List (Option Segment)}
    {cursor index : Nat} {segment : Segment} (fuel : Nat)
    (found : held.findIdx? (startsAt cursor) = some index)
    (slot : held[index]? = some (some segment)) :
    advance (fuel + 1) cursor held =
      advance fuel segment.stop (held.set index none) := by
  have taken : held.getD index none = some segment := by
    rw [List.getD_eq_getElem?_getD, slot, Option.getD_some]
  rw [advance, found]
  simp only [taken, Option.map_some, Option.getD_some]

/-- What each round keeps holds in the end. -/
theorem advance_keeps {kept : Nat → List (Option Segment) → Prop}
    (round : ∀ held index segment, held[index]? = some (some segment) →
      kept segment.start held → kept segment.stop (held.set index none)) :
    ∀ fuel cursor held, kept cursor held →
      kept (advance fuel cursor held).1 (advance fuel cursor held).2
  | 0, _, _, holds => holds
  | fuel + 1, cursor, held, holds => by
      cases found : held.findIdx? (startsAt cursor) with
      | none => simpa only [advance, found] using holds
      | some index =>
          obtain ⟨segment, slot, rfl⟩ := held_at_found found
          rw [advance_succ_of_found fuel found slot]
          exact advance_keeps round fuel segment.stop (held.set index none)
            (round held index segment slot holds)

theorem le_advance (fuel cursor : Nat) (held : List (Option Segment)) :
    cursor ≤ (advance fuel cursor held).1 := by
  apply @advance_keeps (fun reached _ => cursor ≤ reached)
  · intro held index segment _ before
    exact Nat.le_trans before (Nat.le_add_right _ _)
  · exact le_refl cursor

theorem mem_of_mem_set_none {held : List (Option Segment)} {index : Nat}
    {segment : Segment} (member : some segment ∈ held.set index none) :
    some segment ∈ held := by
  rcases List.mem_or_eq_of_mem_set member with old | new
  · exact old
  · exact nomatch new

theorem mem_of_mem_advance {fuel cursor : Nat} {held : List (Option Segment)}
    {segment : Segment} (member : some segment ∈ (advance fuel cursor held).2) :
    some segment ∈ held := by
  revert member
  apply @advance_keeps
    (fun _ slots => some segment ∈ slots → some segment ∈ held)
  · intro slots index taken _ kept member
    exact kept (mem_of_mem_set_none member)
  · exact id

/-- The cursor stops at the place it was moved to, or behind a held segment. -/
theorem advance_le {cursor bound : Nat} {held : List (Option Segment)}
    (fuel : Nat) (cursorLe : cursor ≤ bound)
    (stops : ∀ segment, some segment ∈ held → segment.stop ≤ bound) :
    (advance fuel cursor held).1 ≤ bound := by
  have both : (advance fuel cursor held).1 ≤ bound ∧
      ∀ segment, some segment ∈ (advance fuel cursor held).2 →
        segment.stop ≤ bound := by
    apply @advance_keeps (fun reached slots => reached ≤ bound ∧
      ∀ segment, some segment ∈ slots → segment.stop ≤ bound)
    · rintro slots index segment slot ⟨-, inside⟩
      exact ⟨inside segment (List.mem_of_getElem? slot),
        fun other member => inside other (mem_of_mem_set_none member)⟩
    · exact ⟨cursorLe, stops⟩
  exact both.1

theorem countP_set_none_lt {held : List (Option Segment)} {index : Nat}
    {segment : Segment} (slot : held[index]? = some (some segment)) :
    (held.set index none).countP Option.isSome <
      held.countP Option.isSome := by
  obtain ⟨bound, value⟩ := List.getElem?_eq_some_iff.mp slot
  have positive : 0 < held.countP Option.isSome :=
    List.countP_pos_iff.mpr ⟨some segment, List.mem_of_getElem? slot, rfl⟩
  rw [List.countP_set bound, value]
  simp only [Option.isSome_some, Option.isSome_none, if_true,
    Bool.false_eq_true, if_false, Nat.add_zero]
  omega

/-- With a round for each held segment, nothing is left at the cursor. -/
theorem advance_settles :
    ∀ fuel cursor held, held.countP Option.isSome ≤ fuel →
      ∀ segment, some segment ∈ (advance fuel cursor held).2 →
        segment.start ≠ (advance fuel cursor held).1
  | 0, cursor, held, enough, segment, member => by
      have positive : 0 < held.countP Option.isSome :=
        List.countP_pos_iff.mpr ⟨some segment, member, rfl⟩
      omega
  | fuel + 1, cursor, held, enough, segment, member => by
      cases found : held.findIdx? (startsAt cursor) with
      | none =>
          simp only [advance, found] at member ⊢
          intro starts
          have not := List.findIdx?_eq_none_iff.mp found _ member
          rw [startsAt_iff.mpr ⟨segment, rfl, starts⟩] at not
          exact nomatch not
      | some index =>
          obtain ⟨taken, slot, -⟩ := held_at_found found
          rw [advance_succ_of_found fuel found slot] at member ⊢
          have fewer := countP_set_none_lt slot
          exact advance_settles fuel taken.stop (held.set index none) (by omega)
            segment member

/-! ## What an arriving segment does -/

/--
Everything that a segment can do when there is room: it moves the cursor, it
lies behind the cursor, its start is held already, or it fills a free slot.
-/
theorem accept_cases {assembly : Assembly} {segment : Segment}
    (positive : 0 < segment.length) (room : assembly.Room segment) :
    (segment.start ≤ (assembly.start segment).cursor ∧
        (assembly.start segment).cursor < segment.stop ∧
        assembly.accept segment =
          (assembly.start segment).moveTo segment.stop) ∨
      (assembly.started = true ∧ segment.stop ≤ assembly.cursor ∧
        assembly.accept segment = assembly) ∨
      (assembly.started = true ∧ assembly.cursor < segment.start ∧
        (∃ other, some other ∈ assembly.held ∧
          other.start = segment.start) ∧
        assembly.accept segment = assembly) ∨
      (assembly.started = true ∧ assembly.cursor < segment.start ∧
        (∀ other, some other ∈ assembly.held →
          other.start ≠ segment.start) ∧
        ∃ index, assembly.held[index]? = some none ∧
          assembly.accept segment =
            { assembly with
              held := assembly.held.set index (some segment) }) := by
  have longer : segment.start < segment.stop := Nat.lt_add_of_pos_right positive
  rcases Bool.eq_false_or_eq_true assembly.started with begun | fresh
  · have same := start_of_started begun segment
    rw [Assembly.accept, same]
    rcases Nat.lt_trichotomy assembly.cursor segment.start with
      future | here | past
    · rw [if_neg (by omega), if_pos future, Assembly.insert]
      cases found : assembly.held.findIdx? (startsAt segment.start) with
      | some index =>
          obtain ⟨other, slot, starts⟩ := held_at_found found
          exact Or.inr (Or.inr (Or.inl
            ⟨begun, future, ⟨other, List.mem_of_getElem? slot, starts⟩, rfl⟩))
      | none =>
          obtain ⟨index, free⟩ := Option.ne_none_iff_exists'.mp
            (room begun future found)
          rw [free]
          refine Or.inr (Or.inr (Or.inr ⟨begun, future, ?_, index, ?_, rfl⟩))
          · intro other member starts
            have absent := List.findIdx?_eq_none_iff.mp found _ member
            rw [startsAt_iff.mpr ⟨other, rfl, starts⟩] at absent
            exact nomatch absent
          · obtain ⟨bound, vacant, -⟩ :=
              List.findIdx?_eq_some_iff_getElem.mp free
            rw [List.getElem?_eq_getElem bound,
              Option.isNone_iff_eq_none.mp vacant]
    · rw [if_pos here.symm]
      exact Or.inl ⟨here.ge, by omega, rfl⟩
    · rw [if_neg (by omega), if_neg (by omega)]
      split_ifs with reaches
      · exact Or.inl ⟨Nat.le_of_lt past, reaches, rfl⟩
      · exact Or.inr (Or.inl ⟨begun, Nat.le_of_not_lt reaches, rfl⟩)
  · have first : (assembly.start segment).cursor = segment.start := by
      rw [Assembly.start, fresh]
      rfl
    refine Or.inl ⟨first.ge, by omega, ?_⟩
    rw [Assembly.accept, if_pos first.symm]

@[simp]
theorem start_held (assembly : Assembly) (segment : Segment) :
    (assembly.start segment).held = assembly.held := by
  rw [Assembly.start]
  split_ifs <;> rfl

@[simp]
theorem start_started (assembly : Assembly) (segment : Segment) :
    (assembly.start segment).started = true := by
  rw [Assembly.start]
  split_ifs with begun
  · exact begun
  · rfl

/-- A segment that found room leaves the assembly started. -/
theorem accept_started {assembly : Assembly} {segment : Segment}
    (positive : 0 < segment.length) (room : assembly.Room segment) :
    (assembly.accept segment).started = true := by
  rcases accept_cases positive room with
    ⟨-, -, moved⟩ | ⟨begun, -, kept⟩ | ⟨begun, -, -, kept⟩ |
      ⟨begun, -, -, index, -, filled⟩
  · rw [moved]
    exact start_started assembly segment
  · rw [kept, begun]
  · rw [kept, begun]
  · rw [filled]
    exact begun

/-- The pool after an arrival has nothing but old segments and the new one. -/
theorem mem_accept {assembly : Assembly} {segment other : Segment}
    (positive : 0 < segment.length) (room : assembly.Room segment)
    (member : some other ∈ (assembly.accept segment).held) :
    some other ∈ assembly.held ∨ other = segment := by
  rcases accept_cases positive room with
    ⟨-, -, moved⟩ | ⟨-, -, kept⟩ | ⟨-, -, -, kept⟩ |
      ⟨-, -, -, index, -, filled⟩
  · rw [moved] at member
    have old := mem_of_mem_advance member
    rw [start_held] at old
    exact Or.inl old
  · rw [kept] at member
    exact Or.inl member
  · rw [kept] at member
    exact Or.inl member
  · rw [filled] at member
    rcases List.mem_or_eq_of_mem_set member with old | new
    · exact Or.inl old
    · exact Or.inr (Option.some.inj new)

/-! ## Bounds -/

/-- The cursor and the pool stay between two positions. -/
structure Assembly.Within (low high : Nat) (assembly : Assembly) : Prop where
  cursor : assembly.started = true →
    low ≤ assembly.cursor ∧ assembly.cursor ≤ high
  held : ∀ segment, some segment ∈ assembly.held →
    low ≤ segment.start ∧ segment.stop ≤ high

theorem not_mem_empty {capacity : Nat} {segment : Segment} :
    some segment ∉ (Assembly.empty capacity).held := by
  intro member
  exact nomatch List.eq_of_mem_replicate member

theorem empty_within (capacity low high : Nat) :
    (Assembly.empty capacity).Within low high where
  cursor := fun started => nomatch started
  held := fun _ member => absurd member not_mem_empty

theorem accept_within {low high : Nat} {assembly : Assembly}
    {segment : Segment} (within : assembly.Within low high)
    (positive : 0 < segment.length) (room : assembly.Room segment)
    (above : low ≤ segment.start) (below : segment.stop ≤ high) :
    (assembly.accept segment).Within low high where
  held := by
    intro other member
    rcases mem_accept positive room member with old | rfl
    · exact within.held other old
    · exact ⟨above, below⟩
  cursor := by
    intro _
    have longer : segment.start < segment.stop :=
      Nat.lt_add_of_pos_right positive
    rcases accept_cases positive room with
      ⟨starts, -, moved⟩ | ⟨begun, -, kept⟩ | ⟨begun, -, -, kept⟩ |
        ⟨begun, -, -, index, -, filled⟩
    · rw [moved]
      constructor
      · calc
          low ≤ segment.stop := by omega
          _ ≤ _ := le_advance _ _ _
      · apply advance_le _ below
        intro other member
        rw [start_held] at member
        exact (within.held other member).2
    · rw [kept]
      exact within.cursor begun
    · rw [kept]
      exact within.cursor begun
    · rw [filled]
      exact within.cursor begun

/-- The cursor never goes back. -/
theorem le_accept {assembly : Assembly} {segment : Segment}
    (positive : 0 < segment.length) (room : assembly.Room segment) :
    (assembly.start segment).cursor ≤ (assembly.accept segment).cursor := by
  have same : assembly.started = true →
      (assembly.start segment).cursor = assembly.cursor := by
    intro begun
    rw [Assembly.start, if_pos begun]
  rcases accept_cases positive room with
    ⟨-, reaches, moved⟩ | ⟨begun, -, kept⟩ | ⟨begun, -, -, kept⟩ |
      ⟨begun, -, -, index, -, filled⟩
  · rw [moved]
    exact (Nat.le_of_lt reaches).trans (le_advance _ _ _)
  · rw [kept, same begun]
  · rw [kept, same begun]
  · rw [filled, same begun]

/-! ## No byte is lost -/

/--
The first segment is held and the second arrives: one of them ends inside the
other without being part of it, or the held one is the shorter of two with the
same start.
-/
def Segment.Crosses (segment arriving : Segment) : Prop :=
  (segment.start < arriving.start ∧ arriving.start < segment.stop ∧
      segment.stop < arriving.stop) ∨
    (arriving.start < segment.start ∧ segment.start < arriving.stop ∧
      arriving.stop < segment.stop) ∨
    (segment.start = arriving.start ∧ segment.stop < arriving.stop)

/-- The segments from the cursor on are nested or apart. -/
def Nested (cursor : Nat) (held : List (Option Segment)) : Prop :=
  ∀ first second, some first ∈ held → some second ∈ held →
    cursor ≤ first.start → cursor ≤ second.start → ¬ first.Crosses second

/-- Every byte that was seen is behind the cursor or can still be taken up. -/
def Covers (seen : List Segment) (cursor : Nat)
    (held : List (Option Segment)) : Prop :=
  ∀ segment ∈ seen, ∀ position, segment.Has position →
    position < cursor ∨
      ∃ other, some other ∈ held ∧ cursor ≤ other.start ∧ other.Has position

/-- What an assembly keeps so that no byte of a seen segment is stuck. -/
structure Assembly.Complete (seen : List Segment) (assembly : Assembly) :
    Prop where
  fresh : assembly.started = false →
    seen = [] ∧ ∀ segment, some segment ∉ assembly.held
  settled : ∀ segment, some segment ∈ assembly.held →
    segment.start ≠ assembly.cursor
  nested : Nested assembly.cursor assembly.held
  covers : Covers seen assembly.cursor assembly.held

theorem empty_complete (capacity : Nat) :
    (Assembly.empty capacity).Complete [] where
  fresh := fun _ => ⟨rfl, fun _ => not_mem_empty⟩
  settled := fun _ member => absurd member not_mem_empty
  nested := fun _ _ member => absurd member not_mem_empty
  covers := fun _ member => nomatch member

theorem nested_round {held : List (Option Segment)} {index : Nat}
    {segment : Segment} (nested : Nested segment.start held) :
    Nested segment.stop (held.set index none) := by
  intro first second firstHeld secondHeld firstAhead secondAhead
  have longer : segment.start ≤ segment.stop := Nat.le_add_right _ _
  exact nested first second (mem_of_mem_set_none firstHeld)
    (mem_of_mem_set_none secondHeld) (by omega) (by omega)

theorem mem_set_none_of_ne {held : List (Option Segment)} {index : Nat}
    {segment other : Segment} (slot : held[index]? = some (some segment))
    (different : other ≠ segment) (member : some other ∈ held) :
    some other ∈ held.set index none := by
  obtain ⟨place, there⟩ := List.getElem?_of_mem member
  have apart : index ≠ place := by
    rintro rfl
    rw [slot] at there
    exact different (Option.some.inj (Option.some.inj there)).symm
  rw [← List.getElem?_set_ne apart] at there
  exact List.mem_of_getElem? there

theorem mem_set_of_free {held : List (Option Segment)} {index : Nat}
    {segment other : Segment} (free : held[index]? = some none)
    (member : some other ∈ held) :
    some other ∈ held.set index (some segment) := by
  obtain ⟨place, there⟩ := List.getElem?_of_mem member
  have apart : index ≠ place := by
    rintro rfl
    rw [free] at there
    exact nomatch there
  rw [← List.getElem?_set_ne apart] at there
  exact List.mem_of_getElem? there

/-- A round loses no byte, because nothing crosses the segment it takes up. -/
theorem covers_round {seen : List Segment} {held : List (Option Segment)}
    {index : Nat} {segment : Segment}
    (slot : held[index]? = some (some segment))
    (nested : Nested segment.start held)
    (covers : Covers seen segment.start held) :
    Covers seen segment.stop (held.set index none) := by
  intro old member position has
  have longer : segment.start ≤ segment.stop := Nat.le_add_right _ _
  rcases covers old member position has with behind | ⟨other, here, ahead, within⟩
  · exact Or.inl (by omega)
  · rcases Nat.lt_or_ge position segment.stop with taken | left
    · exact Or.inl taken
    · have apart := nested segment other (List.mem_of_getElem? slot) here
        (le_refl _) ahead
      simp only [Segment.Crosses, Segment.Has] at apart within
      have beyond : segment.stop ≤ other.start := by omega
      refine Or.inr ⟨other, mem_set_none_of_ne slot ?_ here, beyond, within⟩
      rintro rfl
      omega

/-- Moving to the end of an arriving segment loses no byte. -/
theorem covers_arriving {seen : List Segment} {held : List (Option Segment)}
    {segment : Segment} {cursor : Nat} (covers : Covers seen cursor held)
    (settled : ∀ other, some other ∈ held → other.start ≠ cursor)
    (plain : ∀ other, some other ∈ held → cursor < other.start →
      ¬ other.Crosses segment)
    (starts : segment.start ≤ cursor) (reaches : cursor < segment.stop) :
    Covers (seen ++ [segment]) segment.stop held := by
  intro old member position has
  rcases List.mem_append.mp member with earlier | latest
  · rcases covers old earlier position has with
      behind | ⟨other, here, ahead, within⟩
    · exact Or.inl (by omega)
    · have strictly := settled other here
      have apart := plain other here (by omega)
      simp only [Segment.Crosses, Segment.Has] at apart within
      rcases Nat.lt_or_ge position segment.stop with taken | left
      · exact Or.inl taken
      · exact Or.inr ⟨other, here, by omega, within⟩
  · cases List.mem_singleton.mp latest
    exact Or.inl has.2

theorem nested_mono {cursor later : Nat} {held : List (Option Segment)}
    (nested : Nested cursor held) (ordered : cursor ≤ later) :
    Nested later held := by
  intro first second firstHeld secondHeld firstAhead secondAhead
  exact nested first second firstHeld secondHeld (by omega) (by omega)

theorem moveTo_complete {seen : List Segment} {assembly : Assembly}
    {position : Nat} (started : assembly.started = true)
    (nested : Nested position assembly.held)
    (covers : Covers seen position assembly.held) :
    (assembly.moveTo position).Complete seen := by
  obtain ⟨nestedLater, coversLater⟩ :
      Nested (assembly.moveTo position).cursor
          (assembly.moveTo position).held ∧
        Covers seen (assembly.moveTo position).cursor
          (assembly.moveTo position).held := by
    apply @advance_keeps
      (fun cursor held => Nested cursor held ∧ Covers seen cursor held)
    · rintro held index segment slot ⟨nestedHere, coversHere⟩
      exact ⟨nested_round nestedHere, covers_round slot nestedHere coversHere⟩
    · exact ⟨nested, covers⟩
  refine ⟨?_, ?_, nestedLater, coversLater⟩
  · intro fresh
    rw [Assembly.moveTo, started] at fresh
    exact nomatch fresh
  · exact advance_settles _ _ _ List.countP_le_length

/-- A segment that crosses nothing in the pool keeps the assembly complete. -/
theorem accept_complete {seen : List Segment} {assembly : Assembly}
    {segment : Segment} (complete : assembly.Complete seen)
    (positive : 0 < segment.length) (room : assembly.Room segment)
    (plain : ∀ other, some other ∈ assembly.held →
      assembly.cursor < other.start → ¬ other.Crosses segment) :
    (assembly.accept segment).Complete (seen ++ [segment]) := by
  rcases accept_cases positive room with
    ⟨starts, reaches, moved⟩ | ⟨begun, behind, kept⟩ |
      ⟨begun, ahead, ⟨other, here, same⟩, kept⟩ |
      ⟨begun, ahead, absent, index, free, filled⟩
  · rw [moved]
    rcases Bool.eq_false_or_eq_true assembly.started with begun | fresh
    · have same := start_of_started begun segment
      rw [same] at starts reaches ⊢
      apply moveTo_complete begun
      · exact nested_mono complete.nested (Nat.le_of_lt reaches)
      · exact covers_arriving complete.covers complete.settled plain starts
          reaches
    · obtain ⟨nothing, vacant⟩ := complete.fresh fresh
      apply moveTo_complete (start_started assembly segment)
      · intro first second firstHeld
        rw [start_held] at firstHeld
        exact absurd firstHeld (vacant first)
      · rw [start_held, nothing]
        have nothingSeen : Covers [] (assembly.start segment).cursor
            assembly.held := by
          intro old member
          exact absurd member List.not_mem_nil
        exact covers_arriving nothingSeen
          (fun other member => absurd member (vacant other))
          (fun other member => absurd member (vacant other)) starts reaches
  · rw [kept]
    refine ⟨fun fresh => ?_, complete.settled, complete.nested, ?_⟩
    · rw [begun] at fresh
      exact nomatch fresh
    · intro old member position has
      rcases List.mem_append.mp member with earlier | latest
      · exact complete.covers old earlier position has
      · cases List.mem_singleton.mp latest
        exact Or.inl (Nat.lt_of_lt_of_le has.2 behind)
  · rw [kept]
    refine ⟨fun fresh => ?_, complete.settled, complete.nested, ?_⟩
    · rw [begun] at fresh
      exact nomatch fresh
    · intro old member position has
      rcases List.mem_append.mp member with earlier | latest
      · exact complete.covers old earlier position has
      · cases List.mem_singleton.mp latest
        have apart := plain other here (by omega)
        simp only [Segment.Crosses] at apart
        refine Or.inr ⟨other, here, by omega, ?_, ?_⟩
        · exact same.le.trans has.1
        · exact Nat.lt_of_lt_of_le has.2 (by omega)
  · rw [filled]
    have joined : ∀ old, some old ∈ assembly.held.set index (some segment) →
        some old ∈ assembly.held ∨ old = segment := by
      intro old member
      rcases List.mem_or_eq_of_mem_set member with before | new
      · exact Or.inl before
      · exact Or.inr (Option.some.inj new)
    refine ⟨fun fresh => ?_, ?_, ?_, ?_⟩
    · rw [show assembly.started = false from fresh] at begun
      exact nomatch begun
    · intro old member
      rcases joined old member with before | rfl
      · exact complete.settled old before
      · exact Nat.ne_of_gt ahead
    · intro first second firstHeld secondHeld firstAhead secondAhead
      rcases joined first firstHeld with firstOld | rfl
      · rcases joined second secondHeld with secondOld | rfl
        · exact complete.nested first second firstOld secondOld firstAhead
            secondAhead
        · have apart := complete.settled first firstOld
          exact plain first firstOld
            (Nat.lt_of_le_of_ne firstAhead apart.symm)
      · rcases joined second secondHeld with secondOld | rfl
        · have different := absent second secondOld
          have apart := complete.settled second secondOld
          have plainly := plain second secondOld
            (Nat.lt_of_le_of_ne secondAhead apart.symm)
          simp only [Segment.Crosses] at plainly ⊢
          omega
        · simp only [Segment.Crosses]
          omega
    · intro old member position has
      rcases List.mem_append.mp member with earlier | latest
      · rcases complete.covers old earlier position has with
          behind | ⟨other, here, aheadOther, within⟩
        · exact Or.inl behind
        · exact Or.inr ⟨other, mem_set_of_free free here, aheadOther, within⟩
      · cases List.mem_singleton.mp latest
        refine Or.inr ⟨segment, ?_, Nat.le_of_lt ahead, has⟩
        obtain ⟨bound, -⟩ := List.getElem?_eq_some_iff.mp free
        exact List.mem_set bound (some segment)

/-- A complete assembly has reached every position up to which all was seen. -/
theorem Assembly.Complete.reaches {seen : List Segment} {assembly : Assembly}
    {first position : Nat} (complete : assembly.Complete seen)
    (after : first ≤ assembly.cursor)
    (all : ∀ place, first ≤ place → place < position →
      ∃ segment ∈ seen, segment.Has place) :
    position ≤ assembly.cursor := by
  by_contra short
  obtain ⟨segment, member, has⟩ := all assembly.cursor after (by omega)
  rcases complete.covers segment member assembly.cursor has with
    behind | ⟨other, here, ahead, within⟩
  · exact absurd behind (Nat.lt_irrefl _)
  · exact complete.settled other here (Nat.le_antisymm within.1 ahead)

/-! ## No segment is passed -/

/-- The second segment arrives and shares a byte with the first, which is held
and is not just a longer one with the same start. -/
def Segment.Conflicts (segment arriving : Segment) : Prop :=
  (segment.start < arriving.stop ∧ arriving.start < segment.stop) ∧
    ¬ (segment.start = arriving.start ∧ arriving.stop ≤ segment.stop)

theorem Segment.Crosses.conflicts {segment arriving : Segment}
    (positive : 0 < segment.length) (crosses : segment.Crosses arriving) :
    segment.Conflicts arriving := by
  simp only [Segment.Crosses, Segment.Conflicts, Segment.stop] at *
  omega

/-- The held segments start at the cursor or behind it and share no byte. -/
structure Lined (cursor : Nat) (held : List (Option Segment)) : Prop where
  ahead : ∀ segment, some segment ∈ held →
    cursor ≤ segment.start ∧ 0 < segment.length
  apart : ∀ (first second : Nat) (left right : Segment), first ≠ second →
    held[first]? = some (some left) → held[second]? = some (some right) →
      left.stop ≤ right.start ∨ right.stop ≤ left.start

theorem lined_empty (capacity cursor : Nat) :
    Lined cursor (Assembly.empty capacity).held where
  ahead := fun _ member => absurd member not_mem_empty
  apart := fun _ _ _ _ _ slot =>
    absurd (List.mem_of_getElem? slot) not_mem_empty

theorem lined_round {held : List (Option Segment)} {index : Nat}
    {segment : Segment} (slot : held[index]? = some (some segment))
    (lined : Lined segment.start held) :
    Lined segment.stop (held.set index none) where
  ahead := by
    intro other member
    obtain ⟨place, there⟩ := List.getElem?_of_mem member
    have different : index ≠ place := by
      rintro rfl
      rw [List.getElem?_set_self (List.getElem?_eq_some_iff.mp slot).1] at there
      exact nomatch there
    rw [List.getElem?_set_ne different] at there
    obtain ⟨after, positive⟩ := lined.ahead other (List.mem_of_getElem? there)
    have apart := lined.apart index place segment other different slot there
    simp only [Segment.stop] at apart ⊢
    omega
  apart := by
    intro first second left right different leftSlot rightSlot
    have kept : ∀ {place : Nat} {held' : Segment},
        (held.set index none)[place]? = some (some held') →
          held[place]? = some (some held') := by
      intro place held' there
      by_cases same : index = place
      · subst same
        rw [List.getElem?_set_self
          (List.getElem?_eq_some_iff.mp slot).1] at there
        exact nomatch there
      · rwa [List.getElem?_set_ne same] at there
    exact lined.apart first second left right different (kept leftSlot)
      (kept rightSlot)

theorem moveTo_lined {assembly : Assembly} {position : Nat}
    (lined : Lined position assembly.held) :
    Lined (assembly.moveTo position).cursor
      (assembly.moveTo position).held := by
  apply @advance_keeps Lined
  · intro held index segment slot
    exact lined_round slot
  · exact lined

/-- A segment that conflicts with nothing in the pool keeps it lined up. -/
theorem accept_lined {assembly : Assembly} {segment : Segment}
    (lined : Lined (assembly.start segment).cursor assembly.held)
    (settled : ∀ other, some other ∈ assembly.held →
      other.start ≠ (assembly.start segment).cursor)
    (positive : 0 < segment.length) (room : assembly.Room segment)
    (plain : ∀ other, some other ∈ assembly.held →
      ¬ other.Conflicts segment) :
    Lined (assembly.accept segment).cursor (assembly.accept segment).held := by
  have same : assembly.started = true →
      assembly.start segment = assembly :=
    fun begun => start_of_started begun segment
  rcases accept_cases positive room with
    ⟨starts, reaches, moved⟩ | ⟨begun, behind, kept⟩ |
      ⟨begun, ahead, -, kept⟩ | ⟨begun, ahead, absent, index, free, filled⟩
  · rw [moved]
    apply moveTo_lined
    rw [start_held]
    refine ⟨?_, lined.apart⟩
    intro other member
    obtain ⟨after, longer⟩ := lined.ahead other member
    have strictly := settled other member
    have apart := plain other member
    simp only [Segment.Conflicts, Segment.stop] at apart reaches ⊢
    omega
  · rw [same begun] at lined
    rwa [kept]
  · rw [same begun] at lined
    rwa [kept]
  · rw [same begun] at lined
    rw [filled]
    have separate : ∀ other, some other ∈ assembly.held →
        other.stop ≤ segment.start ∨ segment.stop ≤ other.start := by
      intro other member
      have apart := plain other member
      have different := absent other member
      simp only [Segment.Conflicts] at apart
      omega
    obtain ⟨bound, -⟩ := List.getElem?_eq_some_iff.mp free
    refine ⟨?_, ?_⟩
    · intro other member
      rcases List.mem_or_eq_of_mem_set member with before | new
      · exact lined.ahead other before
      · cases Option.some.inj new
        exact ⟨Nat.le_of_lt ahead, positive⟩
    · intro first second left right different leftSlot rightSlot
      dsimp only at leftSlot rightSlot
      rw [List.getElem?_set] at leftSlot rightSlot
      split_ifs at leftSlot rightSlot with leftNew rightNew rightNew
      · omega
      · cases leftSlot
        exact (separate right (List.mem_of_getElem? rightSlot)).symm
      · cases rightSlot
        exact separate left (List.mem_of_getElem? leftSlot)
      · exact lined.apart first second left right different leftSlot rightSlot

end Kivo.Relay.Segments
