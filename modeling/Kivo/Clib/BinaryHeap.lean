import Mathlib.Data.Multiset.Range
import Mathlib.Logic.Equiv.Basic
import Kivo.Clib.Ring

/-!
# Binary heaps in an array

The cells of an array below a size form a tree: the parent of a cell is at half
its index.  The tree is a min-heap when no cell is smaller than its parent.  A
new element rises from the end until its parent is not greater, and an element
in the wrong place sinks to the smallest child until no child is smaller.  Both
only exchange cells, so the multiset of the elements stays the same.
-/

namespace Kivo.Clib.BinaryHeap

open Kivo.Clib.Ring (setSlot)

variable {α κ : Type} [LinearOrder κ]

/-! ## Operations -/

/-- Exchange two cells. -/
def exchange (cells : Nat → α) (i j : Nat) : Nat → α :=
  setSlot (setSlot cells i (cells j)) j (cells i)

section Sifting

variable (key : α → κ)

/-- Let an element rise; the index falls in every iteration. -/
def siftUp : Nat → (Nat → α) → Nat → Nat → α
  | 0, cells, _ => cells
  | fuel + 1, cells, curr =>
      if curr = 0 then cells
      else
        let parent := (curr - 1) / 2
        if key (cells parent) ≤ key (cells curr) then cells
        else siftUp fuel (exchange cells curr parent) parent

/-- The smaller one of a cell and a child, if the child is there. -/
def smaller (cells : Nat → α) (size smallest child : Nat) : Nat :=
  if child < size ∧ key (cells child) < key (cells smallest) then child
  else smallest

/-- Let an element sink; the index grows in every iteration. -/
def siftDown (size : Nat) : Nat → (Nat → α) → Nat → Nat → α
  | 0, cells, _ => cells
  | fuel + 1, cells, curr =>
      let smallest := smaller key cells size
        (smaller key cells size curr (2 * curr + 1)) (2 * curr + 2)
      if smallest = curr then cells
      else siftDown size fuel (exchange cells curr smallest) smallest

end Sifting

/-! ## Elements -/

/-- The elements below a size. -/
def held (cells : Nat → α) (size : Nat) : Multiset α :=
  (Multiset.range size).map cells

theorem mem_held {cells : Nat → α} {size : Nat} {element : α} :
    element ∈ held cells size ↔ ∃ index < size, cells index = element := by
  simp [held]

theorem held_congr {cells cells' : Nat → α} {size : Nat}
    (same : ∀ index < size, cells index = cells' index) :
    held cells size = held cells' size :=
  Multiset.map_congr rfl
    (fun index member => same index (Multiset.mem_range.mp member))

theorem held_succ (cells : Nat → α) (size : Nat) :
    held cells (size + 1) = cells size ::ₘ held cells size := by
  rw [held, Multiset.range_succ, Multiset.map_cons, held]

/-- A cell behind the elements. -/
theorem held_setSlot (cells : Nat → α) (size : Nat) (element : α) :
    held (setSlot cells size element) (size + 1) =
      element ::ₘ held cells size := by
  rw [held_succ, setSlot, if_pos rfl]
  congr 1
  exact held_congr (fun index below => if_neg (by omega))

theorem exchange_eq (cells : Nat → α) (i j : Nat) :
    exchange cells i j = cells ∘ Equiv.swap i j := by
  funext index
  rw [exchange, setSlot, setSlot, Function.comp_apply]
  split_ifs with second first
  · rw [second, Equiv.swap_apply_right]
  · rw [first, Equiv.swap_apply_left]
  · rw [Equiv.swap_apply_of_ne_of_ne first second]

/-- An exchange keeps the elements. -/
theorem held_exchange (cells : Nat → α) {size i j : Nat} (first : i < size)
    (second : j < size) :
    held (exchange cells i j) size = held cells size := by
  have indices : (Multiset.range size).map (Equiv.swap i j) =
      Multiset.range size := by
    refine (Multiset.Nodup.ext
      ((Multiset.nodup_range size).map (Equiv.swap i j).injective)
      (Multiset.nodup_range size)).mpr ?_
    intro index
    rw [Multiset.mem_map, Multiset.mem_range]
    constructor
    · rintro ⟨other, member, rfl⟩
      have below := Multiset.mem_range.mp member
      rw [Equiv.swap_apply_def]
      split_ifs <;> omega
    · intro below
      refine ⟨Equiv.swap i j index, ?_, Equiv.swap_apply_self i j index⟩
      rw [Multiset.mem_range, Equiv.swap_apply_def]
      split_ifs <;> omega
  rw [held, held, exchange_eq, ← Multiset.map_map, indices]

variable {key : α → κ}

theorem held_siftUp {fuel curr size : Nat} (cells : Nat → α)
    (inside : curr < size) :
    held (siftUp key fuel cells curr) size = held cells size := by
  induction fuel generalizing cells curr with
  | zero => rfl
  | succ fuel induction =>
      rw [siftUp]
      dsimp only
      split_ifs
      · rfl
      · rfl
      · have above : (curr - 1) / 2 < size := by omega
        rw [induction _ above, held_exchange cells inside above]

theorem smaller_lt {cells : Nat → α} {size smallest child : Nat}
    (inside : smallest < size) :
    smaller key cells size smallest child < size := by
  rw [smaller]
  split_ifs with chosen
  · exact chosen.1
  · exact inside

theorem held_siftDown {fuel curr size : Nat} (cells : Nat → α)
    (inside : curr < size) :
    held (siftDown key size fuel cells curr) size = held cells size := by
  induction fuel generalizing cells curr with
  | zero => rfl
  | succ fuel induction =>
      rw [siftDown]
      have child := @smaller_lt α κ _ key cells size _ (2 * curr + 2)
        (@smaller_lt α κ _ key cells size _ (2 * curr + 1) inside)
      split_ifs
      · rfl
      · rw [induction _ child, held_exchange cells inside child]

/-! ## Order -/

/-- No element is smaller than its parent. -/
def Ordered (key : α → κ) (cells : Nat → α) (size : Nat) : Prop :=
  ∀ index, 0 < index → index < size →
    key (cells ((index - 1) / 2)) ≤ key (cells index)

/-- No element is smaller than the one at the root. -/
theorem Ordered.root_le {cells : Nat → α} {size : Nat}
    (ordered : Ordered key cells size) {index : Nat} (inside : index < size) :
    key (cells 0) ≤ key (cells index) := by
  induction index using Nat.strong_induction_on with
  | h index induction =>
      rcases Nat.eq_zero_or_pos index with root | positive
      · rw [root]
      · exact le_trans (induction ((index - 1) / 2) (by omega) (by omega))
          (ordered index positive inside)

theorem exchange_left (cells : Nat → α) (i j : Nat) :
    exchange cells i j i = cells j := by
  rw [exchange_eq, Function.comp_apply, Equiv.swap_apply_left]

theorem exchange_right (cells : Nat → α) (i j : Nat) :
    exchange cells i j j = cells i := by
  rw [exchange_eq, Function.comp_apply, Equiv.swap_apply_right]

theorem exchange_of_ne (cells : Nat → α) {i j index : Nat}
    (first : index ≠ i) (second : index ≠ j) :
    exchange cells i j index = cells index := by
  rw [exchange_eq, Function.comp_apply,
    Equiv.swap_apply_of_ne_of_ne first second]

/-- All is in order but that an element may be smaller than its parent. -/
structure Rises (key : α → κ) (cells : Nat → α) (size curr : Nat) : Prop where
  except : ∀ index, 0 < index → index < size → index ≠ curr →
    key (cells ((index - 1) / 2)) ≤ key (cells index)
  grand : 0 < curr → ∀ index, 0 < index → index < size →
    (index - 1) / 2 = curr →
      key (cells ((curr - 1) / 2)) ≤ key (cells index)

/-- All is in order but that an element may be greater than its children. -/
structure Sinks (key : α → κ) (cells : Nat → α) (size curr : Nat) : Prop where
  except : ∀ index, 0 < index → index < size → (index - 1) / 2 ≠ curr →
    key (cells ((index - 1) / 2)) ≤ key (cells index)
  grand : 0 < curr → ∀ index, 0 < index → index < size →
    (index - 1) / 2 = curr →
      key (cells ((curr - 1) / 2)) ≤ key (cells index)

/-- One exchange with the parent. -/
theorem Rises.exchange {cells : Nat → α} {size curr : Nat}
    (rises : Rises key cells size curr) (positive : 0 < curr)
    (less : key (cells curr) < key (cells ((curr - 1) / 2))) :
    Rises key (exchange cells curr ((curr - 1) / 2)) size
      ((curr - 1) / 2) := by
  constructor
  · intro index above below apart
    by_cases here : index = curr
    · rw [here, exchange_left, exchange_right]
      exact less.le
    · rw [exchange_of_ne cells here apart]
      by_cases child : (index - 1) / 2 = curr
      · rw [child, exchange_left]
        exact rises.grand positive index above below child
      · have own := rises.except index above below here
        by_cases sibling : (index - 1) / 2 = (curr - 1) / 2
        · rw [sibling] at own
          rw [sibling, exchange_right]
          exact less.le.trans own
        · rw [exchange_of_ne cells child sibling]
          exact own
  · intro parent index above below child
    have grandparent := rises.except ((curr - 1) / 2) parent (by omega)
      (by omega)
    rw [exchange_of_ne cells (by omega) (by omega)]
    by_cases here : index = curr
    · rw [here, exchange_left]
      exact grandparent
    · rw [exchange_of_ne cells here (by omega)]
      have own := rises.except index above below here
      rw [child] at own
      exact grandparent.trans own

/-- An element that rises restores the order. -/
theorem Rises.siftUp {cells : Nat → α} {size curr fuel : Nat}
    (rises : Rises key cells size curr) (inside : curr < size)
    (enough : curr ≤ fuel) :
    Ordered key (siftUp key fuel cells curr) size := by
  induction fuel generalizing cells curr with
  | zero =>
      intro index above below
      exact rises.except index above below (by omega)
  | succ fuel induction =>
      rw [BinaryHeap.siftUp]
      dsimp only
      split_ifs with root placed
      · intro index above below
        exact rises.except index above below (by omega)
      · intro index above below
        by_cases here : index = curr
        · rw [here]
          exact placed
        · exact rises.except index above below here
      · have positive : 0 < curr := Nat.pos_of_ne_zero root
        exact induction
          (rises.exchange positive (not_le.mp placed)) (by omega) (by omega)

/-- A comparison with a child. -/
theorem smaller_spec (cells : Nat → α) (size smallest child : Nat) :
    (smaller key cells size smallest child = smallest ∨
        smaller key cells size smallest child = child ∧ child < size ∧
          key (cells child) < key (cells smallest)) ∧
      key (cells (smaller key cells size smallest child)) ≤
        key (cells smallest) ∧
      (child < size →
        key (cells (smaller key cells size smallest child)) ≤
          key (cells child)) := by
  rw [smaller]
  split_ifs with chosen
  · exact ⟨Or.inr ⟨rfl, chosen⟩, chosen.2.le, fun _ => le_refl _⟩
  · refine ⟨Or.inl rfl, le_refl _, fun inside => ?_⟩
    exact not_lt.mp (fun less => chosen ⟨inside, less⟩)

/-- The smallest one of an element and its children. -/
theorem smallest_spec (cells : Nat → α) (size curr : Nat) :
    let smallest := smaller key cells size
      (smaller key cells size curr (2 * curr + 1)) (2 * curr + 2)
    (smallest = curr ∨
        0 < smallest ∧ smallest < size ∧ (smallest - 1) / 2 = curr ∧
          key (cells smallest) < key (cells curr)) ∧
      ∀ index, 0 < index → index < size → (index - 1) / 2 = curr →
        key (cells smallest) ≤ key (cells index) := by
  obtain ⟨first, keeps, left⟩ :=
    @smaller_spec α κ _ key cells size curr (2 * curr + 1)
  obtain ⟨second, drops, right⟩ :=
    @smaller_spec α κ _ key cells size
      (smaller key cells size curr (2 * curr + 1)) (2 * curr + 2)
  dsimp only
  constructor
  · rcases second with same | ⟨same, inside, less⟩
    · rw [same]
      rcases first with stays | ⟨stays, inside, less⟩
      · exact Or.inl stays
      · rw [stays]
        exact Or.inr ⟨by omega, inside, by omega, less⟩
    · rw [same]
      exact Or.inr ⟨by omega, inside, by omega, less.trans_le keeps⟩
  · intro index above below child
    rcases (by omega : index = 2 * curr + 1 ∨ index = 2 * curr + 2) with
      here | here
    · rw [here]
      exact drops.trans (left (here ▸ below))
    · rw [here]
      exact right (here ▸ below)

/-- One exchange with the smallest child. -/
theorem Sinks.exchange {cells : Nat → α} {size curr smallest : Nat}
    (sinks : Sinks key cells size curr) (positive : 0 < smallest)
    (inside : smallest < size) (child : (smallest - 1) / 2 = curr)
    (less : key (cells smallest) < key (cells curr))
    (least : ∀ index, 0 < index → index < size → (index - 1) / 2 = curr →
      key (cells smallest) ≤ key (cells index)) :
    Sinks key (exchange cells curr smallest) size smallest := by
  constructor
  · intro index above below apart
    by_cases same : index = smallest
    · rw [same, child, exchange_left, exchange_right]
      exact less.le
    · by_cases here : index = curr
      · rw [here] at above ⊢
        rw [exchange_left, exchange_of_ne cells (by omega) (by omega)]
        exact sinks.grand above smallest positive inside child
      · rw [exchange_of_ne cells here same]
        by_cases sibling : (index - 1) / 2 = curr
        · rw [sibling, exchange_left]
          exact least index above below sibling
        · rw [exchange_of_ne cells sibling apart]
          exact sinks.except index above below sibling
  · intro _ index above below grandchild
    rw [child, exchange_left, exchange_of_ne cells (by omega) (by omega)]
    have own := sinks.except index above below (by omega)
    rw [grandchild] at own
    exact own

/-- An element that sinks restores the order. -/
theorem Sinks.siftDown {cells : Nat → α} {size curr fuel : Nat}
    (sinks : Sinks key cells size curr) (enough : size ≤ fuel + curr) :
    Ordered key (siftDown key size fuel cells curr) size := by
  induction fuel generalizing cells curr with
  | zero =>
      intro index above below
      exact sinks.except index above below (by omega)
  | succ fuel induction =>
      rw [BinaryHeap.siftDown]
      obtain ⟨chosen, least⟩ := @smallest_spec α κ _ key cells size curr
      split_ifs with stays
      · intro index above below
        by_cases child : (index - 1) / 2 = curr
        · have bound := least index above below child
          rw [stays] at bound
          rw [child]
          exact bound
        · exact sinks.except index above below child
      · obtain ⟨positive, inside, child, less⟩ := chosen.resolve_left stays
        exact induction
          (sinks.exchange positive inside child less least) (by omega)

/-! ## Insertion and removal -/

/-- A new element behind the others rises to its place. -/
theorem Ordered.insert {cells : Nat → α} {size : Nat}
    (ordered : Ordered key cells size) (element : α) :
    Ordered key (siftUp key size (setSlot cells size element) size)
      (size + 1) := by
  refine Rises.siftUp ⟨?_, ?_⟩ (Nat.lt_succ_self size) (Nat.le_refl size)
  · intro index above below apart
    have own := ordered index above (by omega)
    rw [setSlot, setSlot, if_neg apart, if_neg (by omega)]
    exact own
  · intro _ index _ below child
    omega

theorem held_insert (cells : Nat → α) (size : Nat) (element : α) :
    held (siftUp key size (setSlot cells size element) size) (size + 1) =
      element ::ₘ held cells size := by
  rw [held_siftUp _ (Nat.lt_succ_self size), held_setSlot]

/-- The last element sinks from the root to its place. -/
theorem Ordered.remove {cells : Nat → α} {last : Nat}
    (ordered : Ordered key cells (last + 1)) :
    Ordered key (siftDown key last last (setSlot cells 0 (cells last)) 0)
      last := by
  refine Sinks.siftDown ⟨?_, ?_⟩ (Nat.le_refl _)
  · intro index above below apart
    rw [setSlot, setSlot, if_neg apart, if_neg (by omega)]
    exact ordered index above (by omega)
  · intro positive
    exact absurd positive (Nat.lt_irrefl 0)

theorem held_remove (cells : Nat → α) (last : Nat) :
    held cells (last + 1) =
      cells 0 ::ₘ
        held (siftDown key last last (setSlot cells 0 (cells last)) 0)
          last := by
  have moved : held (exchange cells 0 last) last =
      held (setSlot cells 0 (cells last)) last := by
    refine held_congr (fun index below => ?_)
    rw [exchange, setSlot, if_neg (by omega)]
  rw [← held_exchange cells (Nat.succ_pos last) (Nat.lt_succ_self last),
    held_succ, exchange_right, moved]
  cases last with
  | zero => rfl
  | succ last => rw [held_siftDown _ (Nat.succ_pos last)]

/-! ## Draining -/

/-- An element that no other is smaller than has been taken out. -/
structure TakesLeast (key : α → κ) (before : Multiset α) (element : α)
    (after : Multiset α) : Prop where
  rest : before = element ::ₘ after
  least : ∀ other ∈ before, key element ≤ key other

/-- The root of an ordered heap. -/
theorem Ordered.takesLeast {cells : Nat → α} {last : Nat}
    (ordered : Ordered key cells (last + 1)) :
    TakesLeast key (held cells (last + 1)) (cells 0)
      (held (siftDown key last last (setSlot cells 0 (cells last)) 0)
        last) := by
  refine ⟨held_remove cells last, fun other member => ?_⟩
  obtain ⟨index, inside, rfl⟩ := mem_held.mp member
  exact ordered.root_le inside

/-- Least elements up to a bound have been taken out one after the other. -/
inductive Drains (key : α → κ) (bound : κ) (before : Multiset α) :
    List α → Multiset α → Prop where
  | start : Drains key bound before [] before
  | take {items : List α} {between after : Multiset α} {element : α}
      (earlier : Drains key bound before items between)
      (due : key element ≤ bound)
      (taken : TakesLeast key between element after) :
      Drains key bound before (items ++ [element]) after

section Draining

variable {bound : κ} {before after : Multiset α} {items : List α}

theorem Drains.rest (drains : Drains key bound before items after) :
    before = ↑items + after := by
  induction drains with
  | start => rw [Multiset.coe_nil, Multiset.zero_add]
  | take earlier due taken induction =>
      rw [induction, taken.rest, ← Multiset.coe_add, add_assoc,
        Multiset.coe_singleton, Multiset.singleton_add]

theorem Drains.due (drains : Drains key bound before items after) :
    ∀ item ∈ items, key item ≤ bound := by
  induction drains with
  | start => exact fun _ member => absurd member List.not_mem_nil
  | take earlier due taken induction =>
      intro item member
      rcases List.mem_append.mp member with old | new
      · exact induction item old
      · rw [List.mem_singleton.mp new]
        exact due

/-- What has been taken out is not greater than what is left. -/
theorem Drains.least (drains : Drains key bound before items after) :
    ∀ item ∈ items, ∀ other ∈ after, key item ≤ key other := by
  induction drains with
  | start => exact fun _ member => absurd member List.not_mem_nil
  | take earlier due taken induction =>
      intro item member other left
      have inside := taken.rest ▸ Multiset.mem_cons_of_mem left
      rcases List.mem_append.mp member with old | new
      · exact induction item old other inside
      · rw [List.mem_singleton.mp new]
        exact taken.least other inside

/-- The elements come out in order. -/
theorem Drains.sorted (drains : Drains key bound before items after) :
    items.Pairwise (fun first second => key first ≤ key second) := by
  induction drains with
  | start => exact List.Pairwise.nil
  | take earlier due taken induction =>
      refine List.pairwise_append.mpr
        ⟨induction, List.pairwise_singleton _ _, ?_⟩
      intro item member other last
      rw [List.mem_singleton.mp last]
      exact earlier.least item member _
        (taken.rest ▸ Multiset.mem_cons_self _ _)

/-- When only elements over the bound are left, those that came out are
exactly the others. -/
theorem Drains.complete (drains : Drains key bound before items after)
    (done : ∀ other ∈ after, bound < key other) :
    (items : Multiset α) = before.filter (fun item => key item ≤ bound) ∧
      after = before.filter (fun item => bound < key item) := by
  have all := drains.due
  rw [drains.rest, Multiset.filter_add, Multiset.filter_add]
  have taken : Multiset.filter (fun item => key item ≤ bound)
      (items : Multiset α) = items :=
    Multiset.filter_eq_self.mpr all
  have kept : Multiset.filter (fun item => key item ≤ bound) after = 0 :=
    Multiset.filter_eq_nil.mpr
      (fun item member => not_le.mpr (done item member))
  have gone : Multiset.filter (fun item => bound < key item)
      (items : Multiset α) = 0 :=
    Multiset.filter_eq_nil.mpr
      (fun item member => not_lt.mpr (all item member))
  have left : Multiset.filter (fun item => bound < key item) after = after :=
    Multiset.filter_eq_self.mpr done
  rw [taken, kept, gone, left, Multiset.add_zero, Multiset.zero_add]
  exact ⟨rfl, rfl⟩

end Draining

end Kivo.Clib.BinaryHeap
