import Mathlib.Data.List.Induction
import Mathlib.Data.Nat.Find
import Mathlib.Order.Basic

/-!
# Linear probing

A table of slots is filled by putting every item into the first free slot from
its home on, and searched by walking from a home on until a slot is free or
holds what is looked for; both walks go on at the first slot behind the last
one.  As long as there are fewer items than slots both walks end, and a search
from the home of what it looks for finds what a scan of the items finds.
-/

namespace Kivo.Clib.Probing

variable {α : Type}

/-! ## Walks -/

/-- What a slot holds. -/
def slotAt (slots : List (Option α)) (idx : Nat) : Option α :=
  slots[idx]?.join

/-- Walk to a free slot or to an item that fits; `none` when the walk takes
more steps than it is given. -/
def probeFrom (slots : List (Option α)) (capacity : Nat) (fits : α → Bool) :
    Nat → Nat → Option (Option α)
  | 0, _ => none
  | fuel + 1, idx =>
      match slotAt slots idx with
      | none => some none
      | some item =>
          if fits item then some (some item)
          else probeFrom slots capacity fits fuel ((idx + 1) % capacity)

/-- Walk to a free slot; `none` when the walk takes more steps than it is
given. -/
def freeFrom (slots : List (Option α)) (capacity : Nat) :
    Nat → Nat → Option Nat
  | 0, _ => none
  | fuel + 1, idx =>
      match slotAt slots idx with
      | none => some idx
      | some _ => freeFrom slots capacity fuel ((idx + 1) % capacity)

/-- A walk passes items that do not fit, and stops at a free slot or at an item
that fits. -/
structure Walk (slots : List (Option α)) (capacity : Nat) (fits : α → Bool)
    (start steps : Nat) (result : Option α) : Prop where
  passes : ∀ index < steps, ∃ item,
    slotAt slots ((start + index) % capacity) = some item ∧
      fits item = false
  stops : slotAt slots ((start + steps) % capacity) = result
  fitting : ∀ item, result = some item → fits item = true

section Walks

variable {slots : List (Option α)} {capacity start steps : Nat}
  {fits : α → Bool} {result : Option α}

theorem Walk.next
    (walk : Walk slots capacity fits start (steps + 1) result) :
    Walk slots capacity fits ((start + 1) % capacity) steps result := by
  refine ⟨?_, ?_, walk.fitting⟩
  · intro index inside
    rw [Nat.mod_add_mod, Nat.add_assoc, Nat.add_comm 1 index]
    exact walk.passes (index + 1) (Nat.succ_lt_succ inside)
  · rw [Nat.mod_add_mod, Nat.add_assoc, Nat.add_comm 1 steps]
    exact walk.stops

/-- The slot that a walk starts at. -/
theorem Walk.first (walk : Walk slots capacity fits start (steps + 1) result)
    (inside : start < capacity) :
    ∃ item, slotAt slots start = some item ∧ fits item = false := by
  have passed := walk.passes 0 (Nat.succ_pos steps)
  rwa [Nat.add_zero, Nat.mod_eq_of_lt inside] at passed

theorem Walk.here (walk : Walk slots capacity fits start 0 result)
    (inside : start < capacity) : slotAt slots start = result := by
  have stops := walk.stops
  rwa [Nat.add_zero, Nat.mod_eq_of_lt inside] at stops

/-- A probe ends where the walk does. -/
theorem Walk.probeFrom (walk : Walk slots capacity fits start steps result)
    (inside : start < capacity) {fuel : Nat} (enough : steps < fuel) :
    probeFrom slots capacity fits fuel start = some result := by
  induction steps generalizing start fuel with
  | zero =>
      obtain ⟨fuel, rfl⟩ := Nat.exists_eq_succ_of_ne_zero (Nat.ne_of_gt enough)
      rw [Probing.probeFrom, walk.here inside]
      cases result with
      | none => rfl
      | some item => exact if_pos (walk.fitting item rfl)
  | succ steps induction =>
      obtain ⟨fuel, rfl⟩ := Nat.exists_eq_succ_of_ne_zero
        (Nat.ne_of_gt (Nat.zero_lt_of_lt enough))
      obtain ⟨item, here, other⟩ := walk.first inside
      rw [Probing.probeFrom, here]
      dsimp only
      rw [other, if_neg Bool.false_ne_true]
      exact induction walk.next (Nat.mod_lt _ (Nat.zero_lt_of_lt inside))
        (Nat.lt_of_succ_lt_succ enough)

/-- A walk that finds nothing leads to a free slot. -/
theorem Walk.freeFrom
    (walk : Walk slots capacity fits start steps none)
    (inside : start < capacity) {fuel : Nat} (enough : steps < fuel) :
    freeFrom slots capacity fuel start =
      some ((start + steps) % capacity) := by
  induction steps generalizing start fuel with
  | zero =>
      obtain ⟨fuel, rfl⟩ := Nat.exists_eq_succ_of_ne_zero (Nat.ne_of_gt enough)
      rw [Probing.freeFrom, walk.here inside]
      dsimp only
      rw [Nat.add_zero, Nat.mod_eq_of_lt inside]
  | succ steps induction =>
      obtain ⟨fuel, rfl⟩ := Nat.exists_eq_succ_of_ne_zero
        (Nat.ne_of_gt (Nat.zero_lt_of_lt enough))
      obtain ⟨item, here, -⟩ := walk.first inside
      rw [Probing.freeFrom, here]
      dsimp only
      rw [induction walk.next (Nat.mod_lt _ (Nat.zero_lt_of_lt inside))
        (Nat.lt_of_succ_lt_succ enough), Nat.mod_add_mod, Nat.add_assoc,
        Nat.add_comm 1 steps]

/-- Where there is a free slot, every walk ends. -/
theorem exists_walk {free : Nat} (small : free < capacity)
    (empty : slotAt slots free = none) (inside : start < capacity)
    (fits : α → Bool) :
    ∃ steps < capacity, ∃ result,
      Walk slots capacity fits start steps result := by
  classical
  have ends : ∃ steps < capacity, ∀ item,
      slotAt slots ((start + steps) % capacity) = some item →
        fits item = true := by
    obtain ⟨steps, few, reached⟩ : ∃ steps < capacity,
        (start + steps) % capacity = free := by
      rcases Nat.lt_or_ge free start with before | behind
      · refine ⟨free + capacity - start, by omega, ?_⟩
        rw [show start + (free + capacity - start) = free + capacity by omega,
          Nat.add_mod_right, Nat.mod_eq_of_lt small]
      · refine ⟨free - start, by omega, ?_⟩
        rw [Nat.add_sub_cancel' behind, Nat.mod_eq_of_lt small]
    refine ⟨steps, few, ?_⟩
    intro item here
    rw [reached, empty] at here
    cases here
  obtain ⟨few, fitting⟩ := Nat.find_spec ends
  refine ⟨Nat.find ends, few, _, ?_, rfl, fitting⟩
  intro index early
  have passed := Nat.find_min ends early
  by_contra stuck
  apply passed
  refine ⟨Nat.lt_trans early few, ?_⟩
  intro item here
  by_contra other
  exact stuck ⟨item, here, Bool.eq_false_iff.mpr other⟩

end Walks

/-! ## Filling the table -/

/-- Put an item into the first free slot from its home on. -/
def enter (home : α → Nat) (capacity fuel : Nat) (slots : List (Option α))
    (item : α) : Option (List (Option α)) :=
  (freeFrom slots capacity fuel (home item)).map
    (fun free => slots.set free (some item))

/-- A table that these items were put into, in this order. -/
structure Built (home : α → Nat) (capacity : Nat) (items : List α)
    (slots : List (Option α)) : Prop where
  length : slots.length = capacity
  filled : slots.countP Option.isSome ≤ items.length
  stored : ∀ idx item, slotAt slots idx = some item → item ∈ items
  found : ∀ (fits : α → Bool) (start : Nat), start < capacity →
    (∀ item ∈ items, fits item = true → home item = start) →
      ∃ steps < capacity,
        Walk slots capacity fits start steps (items.find? fits)

section Filling

variable {home : α → Nat} {capacity : Nat} {items : List α}
  {slots : List (Option α)}

theorem slotAt_set {free : Nat} (small : free < slots.length) (item : α)
    (idx : Nat) :
    slotAt (slots.set free (some item)) idx =
      if idx = free then some item else slotAt slots idx := by
  rw [slotAt, List.getElem?_set]
  by_cases same : idx = free
  · subst same
    rw [if_pos rfl, if_pos rfl, if_pos small]
    rfl
  · rw [if_neg (Ne.symm same), if_neg same, slotAt]

/-- A table that is not full has a free slot. -/
theorem exists_free (few : slots.countP Option.isSome < slots.length) :
    ∃ free < slots.length, slotAt slots free = none := by
  by_contra full
  apply Nat.ne_of_lt few
  rw [List.countP_eq_length]
  intro slot member
  obtain ⟨idx, inside, rfl⟩ := List.mem_iff_getElem.mp member
  by_contra empty
  apply full
  refine ⟨idx, inside, ?_⟩
  rw [slotAt, List.getElem?_eq_getElem inside]
  exact Option.not_isSome_iff_eq_none.mp empty

theorem built_nil (home : α → Nat) (capacity : Nat) :
    Built home capacity [] (List.replicate capacity none) := by
  have empty : ∀ idx,
      slotAt (List.replicate capacity (none : Option α)) idx = none := by
    intro idx
    rw [slotAt, List.getElem?_replicate]
    split_ifs <;> rfl
  refine ⟨List.length_replicate, ?_, ?_, ?_⟩
  · rw [List.countP_replicate]
    exact le_refl 0
  · intro idx item here
    rw [empty] at here
    cases here
  · intro fits start inside _
    refine ⟨0, Nat.zero_lt_of_lt inside, ?_, empty _, nofun⟩
    exact fun index early => absurd early (Nat.not_lt_zero index)

/-- A walk does not see an item that is put into a free slot behind its end. -/
theorem Walk.set {fits : α → Bool} {start steps free : Nat} {found : α}
    (walk : Walk slots capacity fits start steps (some found))
    (small : free < slots.length) (empty : slotAt slots free = none)
    (item : α) :
    Walk (slots.set free (some item)) capacity fits start steps
      (some found) := by
  have kept : ∀ {idx : Nat} {other : α}, slotAt slots idx = some other →
      slotAt (slots.set free (some item)) idx = some other := by
    intro idx other here
    rw [slotAt_set small, if_neg, here]
    rintro rfl
    rw [empty] at here
    cases here
  refine ⟨?_, kept walk.stops, walk.fitting⟩
  intro index early
  obtain ⟨other, here, unfit⟩ := walk.passes index early
  exact ⟨other, kept here, unfit⟩

/-- A walk that ended at a free slot finds the item that is put there. -/
theorem Walk.fill {fits : α → Bool} {start steps free : Nat}
    (walk : Walk slots capacity fits start steps none)
    (small : free < slots.length) (ends : (start + steps) % capacity = free)
    {item : α} (fitting : fits item = true) :
    Walk (slots.set free (some item)) capacity fits start steps
      (some item) := by
  have empty : slotAt slots free = none := ends ▸ walk.stops
  refine ⟨?_, ?_, ?_⟩
  · intro index early
    obtain ⟨other, here, unfit⟩ := walk.passes index early
    refine ⟨other, ?_, unfit⟩
    rw [slotAt_set small, if_neg, here]
    intro same
    rw [same, empty] at here
    cases here
  · rw [slotAt_set small, if_pos ends]
  · rintro _ ⟨⟩
    exact fitting

/-- Putting in one more item. -/
theorem Built.enter {item : α} (built : Built home capacity items slots)
    (room : items.length + 1 < capacity) (inside : home item < capacity) :
    ∃ next, enter home capacity capacity slots item = some next ∧
      Built home capacity (items ++ [item]) next := by
  have length := built.length
  have few : slots.countP Option.isSome < slots.length := by
    rw [length]
    exact Nat.lt_of_le_of_lt built.filled (Nat.lt_of_succ_lt room)
  obtain ⟨spare, spareSmall, spareEmpty⟩ := exists_free few
  obtain ⟨steps, near, result, walk⟩ := exists_walk (length ▸ spareSmall)
    spareEmpty inside (fun _ => false)
  obtain rfl : result = none := by
    cases result with
    | none => rfl
    | some other => exact absurd (walk.fitting other rfl) Bool.false_ne_true
  have led := walk.freeFrom inside near
  generalize ended : (home item + steps) % capacity = free at led
  have small : free < slots.length := by
    rw [length, ← ended]
    exact Nat.mod_lt _ (Nat.zero_lt_of_lt inside)
  have empty : slotAt slots free = none := ended ▸ walk.stops
  have filled : (slots.set free (some item)).countP Option.isSome ≤
      items.length + 1 := by
    rw [List.countP_set small]
    have before := built.filled
    split_ifs <;> omega
  have stored : ∀ idx other,
      slotAt (slots.set free (some item)) idx = some other →
        other ∈ items ++ [item] := by
    intro idx other here
    rw [slotAt_set small] at here
    split_ifs at here with same
    · cases here
      exact List.mem_append_right _ List.mem_cons_self
    · exact List.mem_append_left _ (built.stored idx other here)
  refine ⟨slots.set free (some item), ?_, ?_, ?_, stored, ?_⟩
  · rw [Probing.enter, led, Option.map_some]
  · rw [List.length_set, length]
  · rwa [List.length_append, List.length_singleton]
  · intro fits start startInside agrees
    obtain ⟨old, oldFew, before⟩ := built.found fits start startInside
      (fun other member =>
        agrees other (List.mem_append_left _ member))
    rw [List.find?_append]
    cases search : items.find? fits with
    | some other =>
        rw [search] at before
        exact ⟨old, oldFew, before.set small empty item⟩
    | none =>
        rw [search] at before
        rw [Option.none_or, List.find?_singleton]
        cases fitting : fits item with
        | true =>
            obtain rfl : home item = start :=
              agrees item (List.mem_append_right _ List.mem_cons_self) fitting
            have here := before.freeFrom startInside oldFew
            rw [led] at here
            exact ⟨old, oldFew, before.fill small (Option.some.inj here).symm
              fitting⟩
        | false =>
            have after : (slots.set free (some item)).countP Option.isSome <
                (slots.set free (some item)).length := by
              rw [List.length_set, length]
              exact Nat.lt_of_le_of_lt filled room
            obtain ⟨left, leftSmall, leftEmpty⟩ := exists_free after
            rw [List.length_set, length] at leftSmall
            obtain ⟨last, lastFew, result, walk⟩ :=
              exists_walk leftSmall leftEmpty startInside fits
            cases result with
            | none => exact ⟨last, lastFew, walk⟩
            | some other =>
                have fits' := walk.fitting other rfl
                rcases List.mem_append.mp (stored _ other walk.stops) with
                  before | now
                · exact absurd fits' (List.find?_eq_none.mp search other before)
                · rw [List.mem_singleton.mp now, fitting] at fits'
                  cases fits'

/-- A search from the home of what it looks for. -/
theorem Built.probe (built : Built home capacity items slots)
    {fits : α → Bool} {start : Nat} (inside : start < capacity)
    (agrees : ∀ item ∈ items, fits item = true → home item = start) :
    probeFrom slots capacity fits capacity start =
      some (items.find? fits) := by
  obtain ⟨steps, few, walk⟩ := built.found fits start inside agrees
  exact walk.probeFrom inside few

/-- Putting in a list of items that leaves a slot free. -/
theorem built_of_items (homes : ∀ item ∈ items, home item < capacity)
    (room : items.length < capacity) :
    ∃ slots, items.foldlM (enter home capacity capacity)
        (List.replicate capacity none) = some slots ∧
      Built home capacity items slots := by
  induction items using List.reverseRecOn with
  | nil => exact ⟨_, rfl, built_nil home capacity⟩
  | append_singleton items item induction =>
      rw [List.length_append, List.length_singleton] at room
      obtain ⟨slots, before, built⟩ := induction
        (fun other member => homes other (List.mem_append_left _ member))
        (Nat.lt_of_succ_lt room)
      obtain ⟨next, entered, after⟩ := built.enter room
        (homes item (List.mem_append_right _ List.mem_cons_self))
      refine ⟨next, ?_, after⟩
      rw [List.foldlM_append, before]
      exact (Option.bind_some _ _).trans ((bind_pure _).trans entered)

end Filling

end Kivo.Clib.Probing
