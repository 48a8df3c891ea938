import Mathlib.Data.List.Basic
import Mathlib.Data.List.Flatten
import Mathlib.Tactic

/-!
# Slots and buckets

A list read as a table of slots is split at a slot into what lies in front of
it, its content and what lies behind it; updates of the slot are then updates
of the middle.  A table of buckets is placed when every element lies in the
bucket that a slot function names, and filling an empty table one element at a
time places all of them.
-/

namespace Kivo.Clib.Slots

variable {α : Type}

/-! ## Slots -/

/-- A list splits at each of its slots. -/
theorem exists_split {elements : List α} {index : Nat}
    (inside : index < elements.length) :
    ∃ front element back, elements = front ++ element :: back ∧
      front.length = index := by
  refine ⟨elements.take index, elements.get ⟨index, inside⟩,
    elements.drop (index + 1), ?_, ?_⟩
  · simp
  · rw [List.length_take, Nat.min_eq_left inside.le]

theorem getElem?_split (front : List α) (element : α) (back : List α) :
    (front ++ element :: back)[front.length]? = some element := by
  simp

theorem set_split (front : List α) (element : α) (back : List α)
    (new : α) :
    (front ++ element :: back).set front.length new =
      front ++ new :: back := by
  simp

theorem modify_split (front : List α) (element : α) (back : List α)
    (change : α → α) :
    (front ++ element :: back).modify front.length change =
      front ++ change element :: back := by
  induction front with
  | nil => rfl
  | cons first rest induction =>
      rw [List.cons_append, List.length_cons, List.modify_succ_cons,
        induction, List.cons_append]

theorem eraseIdx_split (front : List α) (element : α) (back : List α) :
    (front ++ element :: back).eraseIdx front.length = front ++ back := by
  rw [List.eraseIdx_append_of_length_le (Nat.le_refl _), Nat.sub_self]
  rfl

/-- The first slot with a property splits the list. -/
theorem findIdx?_split {elements : List α} {test : α → Bool} {index : Nat}
    (found : elements.findIdx? test = some index) :
    ∃ front element back, elements = front ++ element :: back ∧
      front.length = index ∧ test element = true ∧
      ∀ other ∈ front, test other = false := by
  obtain ⟨inside, hit, earlier⟩ :=
    List.findIdx?_eq_some_iff_getElem.mp found
  obtain ⟨front, element, back, rfl, rfl⟩ := exists_split inside
  refine ⟨front, element, back, rfl, rfl, ?_, ?_⟩
  · simpa using hit
  · intro other member
    obtain ⟨position, low, rfl⟩ := List.mem_iff_getElem.mp member
    have miss := earlier position low
    simpa [List.getElem_append_left low] using miss

/-! ## Buckets -/

/-- From a bucket number on, every element lies in the bucket of its slot. -/
def PlacedFrom (slot : α → Nat) : Nat → List (List α) → Prop
  | _, [] => True
  | index, bucket :: rest =>
      (∀ element ∈ bucket, slot element = index) ∧
        PlacedFrom slot (index + 1) rest

variable {slot : α → Nat}

theorem placedFrom_append {index : Nat} {first second : List (List α)} :
    PlacedFrom slot index (first ++ second) ↔
      PlacedFrom slot index first ∧
        PlacedFrom slot (index + first.length) second := by
  induction first generalizing index with
  | nil => simp [PlacedFrom]
  | cons bucket rest induction =>
      rw [List.cons_append, PlacedFrom, PlacedFrom, induction, and_assoc,
        List.length_cons, show index + 1 + rest.length =
          index + (rest.length + 1) by omega]

theorem placedFrom_range {index : Nat} {buckets : List (List α)}
    (placed : PlacedFrom slot index buckets) {element : α}
    (member : element ∈ buckets.flatten) :
    index ≤ slot element ∧ slot element < index + buckets.length := by
  induction buckets generalizing index with
  | nil => exact absurd member List.not_mem_nil
  | cons bucket rest induction =>
      rw [List.flatten_cons, List.mem_append] at member
      rw [List.length_cons]
      rcases member with here | there
      · have exactly := placed.1 element here
        omega
      · have later := induction placed.2 there
        omega

theorem placedFrom_replicate (index count : Nat) :
    PlacedFrom slot index (List.replicate count []) := by
  induction count generalizing index with
  | zero => trivial
  | succ count induction =>
      rw [List.replicate_succ]
      exact ⟨fun _ member => absurd member List.not_mem_nil, induction _⟩

/-- Every element of a placed table lies in its own bucket. -/
theorem placedFrom_getElem? {buckets : List (List α)}
    (placed : PlacedFrom slot 0 buckets) {index : Nat} {bucket : List α}
    (here : buckets[index]? = some bucket) {element : α}
    (member : element ∈ bucket) :
    slot element = index := by
  obtain ⟨inside, same⟩ := List.getElem?_eq_some_iff.mp here
  obtain ⟨front, middle, back, rfl, rfl⟩ := exists_split inside
  have content : middle = bucket := by simpa using same
  rw [placedFrom_append] at placed
  rw [placed.2.1 element (content ▸ member), Nat.zero_add]

/-- The other buckets hold no element of a slot. -/
theorem placedFrom_apart {front back : List (List α)} {bucket : List α}
    (placed : PlacedFrom slot 0 (front ++ bucket :: back)) {element : α}
    (member : element ∈ front.flatten ++ back.flatten) :
    slot element ≠ front.length := by
  rw [placedFrom_append, Nat.zero_add] at placed
  obtain ⟨inFront, _, inBack⟩ := placed
  rcases List.mem_append.mp member with member | member
  · have range := placedFrom_range inFront member
    omega
  · have range := placedFrom_range inBack member
    omega

/-- A bucket may be replaced by elements of the same slot. -/
theorem placedFrom_replace {front back : List (List α)}
    {bucket new : List α}
    (placed : PlacedFrom slot 0 (front ++ bucket :: back))
    (fits : ∀ element ∈ new, slot element = front.length) :
    PlacedFrom slot 0 (front ++ new :: back) := by
  rw [placedFrom_append, Nat.zero_add] at placed ⊢
  exact ⟨placed.1, fits, placed.2.2⟩

/-- Put elements into the buckets of their slots, one after the other. -/
def fill (slot : α → Nat) (buckets : List (List α)) (elements : List α) :
    List (List α) :=
  elements.foldl
    (fun buckets element =>
      buckets.modify (slot element) (fun bucket => element :: bucket))
    buckets

/-- Filling keeps the table placed and adds exactly the elements. -/
theorem fill_spec {buckets : List (List α)} {elements : List α}
    (placed : PlacedFrom slot 0 buckets)
    (inside : ∀ element ∈ elements, slot element < buckets.length) :
    PlacedFrom slot 0 (fill slot buckets elements) ∧
      (fill slot buckets elements).length = buckets.length ∧
      (fill slot buckets elements).flatten.Perm
        (buckets.flatten ++ elements) := by
  induction elements generalizing buckets with
  | nil => exact ⟨placed, rfl, by simp [fill]⟩
  | cons element rest induction =>
      obtain ⟨front, bucket, back, rfl, position⟩ :=
        exists_split (inside element List.mem_cons_self)
      have next : fill slot (front ++ bucket :: back) (element :: rest) =
          fill slot (front ++ (element :: bucket) :: back) rest := by
        rw [fill, List.foldl_cons, ← position, modify_split]
        rfl
      have placed' : PlacedFrom slot 0
          (front ++ (element :: bucket) :: back) := by
        refine placedFrom_replace placed ?_
        intro other member
        rcases List.mem_cons.mp member with rfl | member
        · exact position.symm
        · rw [placedFrom_append, Nat.zero_add] at placed
          exact placed.2.1 other member
      have inside' : ∀ other ∈ rest, slot other <
          (front ++ (element :: bucket) :: back).length := by
        intro other member
        have bound := inside other (List.mem_cons_of_mem _ member)
        simpa using bound
      obtain ⟨after, length, perm⟩ := induction placed' inside'
      rw [next]
      refine ⟨after, ?_, perm.trans ?_⟩
      · rw [length]
        simp
      · simp only [List.flatten_append, List.flatten_cons, List.append_assoc,
          List.cons_append]
        refine List.Perm.append_left _ ?_
        have moved := @List.perm_middle _ element
          (bucket ++ back.flatten) rest
        simpa using moved.symm

end Kivo.Clib.Slots
