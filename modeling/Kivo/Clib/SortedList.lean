import Mathlib.Data.List.Basic
import Mathlib.Data.List.Perm.Subperm
import Mathlib.Data.List.Pairwise
import Mathlib.Order.Compare

/-!
# Sorted lists as finite maps

A search structure that keeps its elements in key order represents a finite
map; the list of its elements in that order determines it completely.  Setting
and erasing a key are stated by what they keep: the elements below the key and
the elements above it.  The key of an element is given by a function, so that
the same facts serve lists of elements and lists of their addresses.
-/

namespace Kivo.Clib.SortedList

variable {α β κ : Type} (cmp : κ → κ → Ordering) (key : α → κ)

/-! ## Operations -/

/-- Set the key of an element. -/
def put (elements : List α) (element : α) : List α :=
  elements.filter (fun other => cmp (key other) (key element) == .lt) ++
    element ::
      elements.filter (fun other => cmp (key other) (key element) == .gt)

/-- Erase a key. -/
def erase (elements : List α) (k : κ) : List α :=
  elements.filter (fun other => cmp (key other) k != .eq)

/-- The element with a key. -/
def lookup (elements : List α) (k : κ) : Option α :=
  elements.find? (fun other => cmp (key other) k == .eq)

/-- The keys increase strictly. -/
def Sorted (elements : List α) : Prop :=
  elements.Pairwise (fun left right => cmp (key left) (key right) = .lt)

/-! ## The parts around a key -/

/-- The elements below a key, at it and above it. -/
structure Around (k : κ) (below middle above : List α) : Prop where
  below : ∀ element ∈ below, cmp (key element) k = .lt
  middle : ∀ element ∈ middle, cmp (key element) k = .eq
  above : ∀ element ∈ above, cmp (key element) k = .gt

variable {cmp key}

theorem Around.put_eq {element : α} {below middle above : List α}
    (around : Around cmp key (key element) below middle above) :
    put cmp key (below ++ (middle ++ above)) element =
      below ++ element :: above := by
  have low : ∀ other ∈ below,
      (cmp (key other) (key element) == .lt) = true ∧
        (cmp (key other) (key element) == .gt) = false := by
    intro other member
    simp [around.below other member]
  have equal : ∀ other ∈ middle,
      (cmp (key other) (key element) == .lt) = false ∧
        (cmp (key other) (key element) == .gt) = false := by
    intro other member
    simp [around.middle other member]
  have high : ∀ other ∈ above,
      (cmp (key other) (key element) == .lt) = false ∧
        (cmp (key other) (key element) == .gt) = true := by
    intro other member
    simp [around.above other member]
  rw [put]
  simp only [List.filter_append]
  rw [List.filter_eq_self.mpr (fun other member => (low other member).1),
    List.filter_eq_nil_iff.mpr
      (fun other member => by simp [(equal other member).1]),
    List.filter_eq_nil_iff.mpr
      (fun other member => by simp [(high other member).1]),
    List.filter_eq_nil_iff.mpr
      (fun other member => by simp [(low other member).2]),
    List.filter_eq_nil_iff.mpr
      (fun other member => by simp [(equal other member).2]),
    List.filter_eq_self.mpr (fun other member => (high other member).2)]
  simp

theorem Around.erase_eq {k : κ} {below middle above : List α}
    (around : Around cmp key k below middle above) :
    erase cmp key (below ++ (middle ++ above)) k = below ++ above := by
  rw [erase, List.filter_append, List.filter_append,
    List.filter_eq_self.mpr
      (fun other member => by simp [around.below other member]),
    List.filter_eq_nil_iff.mpr
      (fun other member => by simp [around.middle other member]),
    List.filter_eq_self.mpr
      (fun other member => by simp [around.above other member]),
    List.nil_append]

theorem Around.lookup_eq {k : κ} {below middle above : List α}
    (around : Around cmp key k below middle above) :
    lookup cmp key (below ++ (middle ++ above)) k = middle.head? := by
  have low : below.find? (fun other => cmp (key other) k == .eq) = none := by
    rw [List.find?_eq_none]
    intro other member
    simp [around.below other member]
  have high : above.find? (fun other => cmp (key other) k == .eq) = none := by
    rw [List.find?_eq_none]
    intro other member
    simp [around.above other member]
  rw [lookup, List.find?_append, List.find?_append, low, high]
  cases middle with
  | nil => rfl
  | cons first rest =>
      rw [List.find?_cons_of_pos
        (by simp [around.middle first List.mem_cons_self])]
      rfl

/-- Erasing a missing key changes nothing. -/
theorem erase_of_lookup_none {elements : List α} {k : κ}
    (missing : lookup cmp key elements k = none) :
    erase cmp key elements k = elements := by
  rw [erase, List.filter_eq_self]
  intro element member
  have different := List.find?_eq_none.mp missing element member
  simpa using different

theorem lookup_erase (elements : List α) (k : κ) :
    lookup cmp key (erase cmp key elements k) k = none := by
  rw [lookup, List.find?_eq_none]
  intro element member
  have different := (List.mem_filter.mp member).2
  simpa using different

/-- Setting a key overrides what was erased before. -/
theorem put_erase (elements : List α) (element : α) :
    put cmp key (erase cmp key elements (key element)) element =
      put cmp key elements element := by
  rw [put, put, erase, List.filter_filter, List.filter_filter]
  congr 1
  · apply List.filter_congr
    intro other _
    cases cmp (key other) (key element) <;> rfl
  · congr 1
    apply List.filter_congr
    intro other _
    cases cmp (key other) (key element) <;> rfl

/-- Looking up in a mapped list. -/
theorem lookup_map (f : β → α) (elements : List β) (k : κ) :
    lookup cmp key (elements.map f) k =
      (lookup cmp (fun element => key (f element)) elements k).map f := by
  rw [lookup, lookup, List.find?_map]
  rfl

theorem lookup_append_left {first second : List α} {k : κ}
    (apart : ∀ element ∈ second, cmp (key element) k ≠ .eq) :
    lookup cmp key (first ++ second) k = lookup cmp key first k := by
  have missing : lookup cmp key second k = none := by
    rw [lookup, List.find?_eq_none]
    intro element member
    simpa using apart element member
  rw [lookup, List.find?_append, ← lookup, ← lookup, missing,
    Option.or_none]

theorem lookup_append_right {first second : List α} {k : κ}
    (apart : ∀ element ∈ first, cmp (key element) k ≠ .eq) :
    lookup cmp key (first ++ second) k = lookup cmp key second k := by
  have missing : lookup cmp key first k = none := by
    rw [lookup, List.find?_eq_none]
    intro element member
    simpa using apart element member
  rw [lookup, List.find?_append, ← lookup, ← lookup, missing,
    Option.none_or]

/-- Erasing one key leaves the others alone. -/
theorem lookup_erase_of_ne [Std.LawfulEqCmp cmp] (elements : List α)
    {k other : κ} (apart : other ≠ k) :
    lookup cmp key (erase cmp key elements k) other =
      lookup cmp key elements other := by
  rw [lookup, lookup, erase, List.find?_filter]
  congr 1
  funext element
  cases order : cmp (key element) other with
  | lt => simp
  | gt => simp
  | eq =>
      have same := Std.LawfulEqCmp.eq_of_compare order
      have different : cmp (key element) k ≠ .eq := by
        intro equal
        exact apart (same.symm.trans (Std.LawfulEqCmp.eq_of_compare equal))
      simp [different]

theorem lookup_put_self [Std.LawfulEqCmp cmp] (elements : List α)
    (element : α) :
    lookup cmp key (put cmp key elements element) (key element) =
      some element := by
  rw [put, lookup_append_right]
  · rw [lookup, List.find?_cons_of_pos]
    simp
  · intro other member
    have below := (List.mem_filter.mp member).2
    simp only [beq_iff_eq] at below
    rw [below]
    exact nofun

/-- Setting one key leaves the others alone. -/
theorem lookup_put_of_ne [Std.LawfulEqCmp cmp] (elements : List α)
    {element : α} {other : κ} (apart : other ≠ key element) :
    lookup cmp key (put cmp key elements element) other =
      lookup cmp key elements other := by
  have skip : (cmp (key element) other == .eq) = false := by
    rw [beq_eq_false_iff_ne]
    intro equal
    exact apart (Std.LawfulEqCmp.eq_of_compare equal).symm
  have kept : ∀ side, cmp other (key element) = side →
      (elements.filter
        (fun candidate => cmp (key candidate) (key element) == side)).find?
          (fun candidate => cmp (key candidate) other == .eq) =
        elements.find? (fun candidate => cmp (key candidate) other == .eq) := by
    intro side order
    rw [List.find?_filter]
    congr 1
    funext candidate
    by_cases equal : cmp (key candidate) other = .eq
    · have same := Std.LawfulEqCmp.eq_of_compare equal
      simp [same, order]
    · simp [equal]
  have lost : ∀ side, cmp other (key element) ≠ side →
      (elements.filter
        (fun candidate => cmp (key candidate) (key element) == side)).find?
          (fun candidate => cmp (key candidate) other == .eq) = none := by
    intro side order
    rw [List.find?_eq_none]
    intro candidate member equal
    have same := Std.LawfulEqCmp.eq_of_compare
      (show cmp (key candidate) other = .eq by simpa using equal)
    apply order
    rw [← same]
    simpa using (List.mem_filter.mp member).2
  rw [lookup, put, List.find?_append, List.find?_cons, skip]
  cases order : cmp other (key element) with
  | lt =>
      rw [kept _ order, lost .gt (by rw [order]; exact nofun),
        Option.or_none]
      rfl
  | gt =>
      rw [kept _ order, lost .lt (by rw [order]; exact nofun),
        Option.none_or]
      rfl
  | eq => exact absurd (Std.LawfulEqCmp.eq_of_compare order) apart

/-- The parts around a key survive a map that keeps the keys. -/
theorem Around.map {k : κ} {below middle above : List α}
    (around : Around cmp key k below middle above) (f : α → β)
    {key' : β → κ} (keeps : ∀ element, key' (f element) = key element) :
    Around cmp key' k (below.map f) (middle.map f) (above.map f) := by
  refine ⟨?_, ?_, ?_⟩
  · intro element member
    obtain ⟨source, inside, rfl⟩ := List.mem_map.mp member
    rw [keeps]
    exact around.below source inside
  · intro element member
    obtain ⟨source, inside, rfl⟩ := List.mem_map.mp member
    rw [keeps]
    exact around.middle source inside
  · intro element member
    obtain ⟨source, inside, rfl⟩ := List.mem_map.mp member
    rw [keeps]
    exact around.above source inside

section Ordered

variable [Std.TransCmp cmp]

/-- A sorted list falls into the parts around any key. -/
theorem Sorted.exists_around [Std.LawfulEqCmp cmp] {elements : List α}
    (sorted : Sorted cmp key elements) (k : κ) :
    ∃ below middle above, elements = below ++ (middle ++ above) ∧
      Around cmp key k below middle above ∧ middle.length ≤ 1 := by
  induction elements with
  | nil => exact ⟨[], [], [], rfl, ⟨by simp, by simp, by simp⟩, by simp⟩
  | cons first rest induction =>
      have ahead := (List.pairwise_cons.mp sorted).1
      obtain ⟨below, middle, above, parts, around, single⟩ :=
        induction (List.pairwise_cons.mp sorted).2
      cases order : cmp (key first) k with
      | lt =>
          refine ⟨first :: below, middle, above, by rw [parts]; rfl,
            ⟨?_, around.middle, around.above⟩, single⟩
          intro element member
          rcases List.mem_cons.mp member with rfl | member
          · exact order
          · exact around.below element member
      | eq =>
          have same := Std.LawfulEqCmp.eq_of_compare order
          refine ⟨[], [first], rest, rfl, ⟨by simp, ?_, ?_⟩, by simp⟩
          · intro element member
            rw [List.mem_singleton.mp member, order]
          · intro element member
            rw [Std.OrientedCmp.gt_iff_lt, ← same]
            exact ahead element member
      | gt =>
          refine ⟨[], [], first :: rest, rfl, ⟨by simp, by simp, ?_⟩,
            by simp⟩
          intro element member
          rcases List.mem_cons.mp member with rfl | member
          · exact order
          · rw [Std.OrientedCmp.gt_iff_lt] at order ⊢
            exact Std.TransCmp.lt_trans order (ahead element member)

/-- An element between its lower and upper part keeps the list sorted. -/
theorem Around.sorted_put {element : α} {below middle above : List α}
    (around : Around cmp key (key element) below middle above)
    (sorted : Sorted cmp key (below ++ (middle ++ above))) :
    Sorted cmp key (below ++ element :: above) := by
  obtain ⟨low, rest, across⟩ := List.pairwise_append.mp sorted
  have high := (List.pairwise_append.mp rest).2.1
  refine List.pairwise_append.mpr
    ⟨low, List.pairwise_cons.mpr ⟨?_, high⟩, ?_⟩
  · intro other member
    exact Std.OrientedCmp.gt_iff_lt.mp (around.above other member)
  · intro first firstMember second secondMember
    rcases List.mem_cons.mp secondMember with rfl | secondMember
    · exact around.below first firstMember
    · exact across first firstMember second
        (List.mem_append.mpr (Or.inr secondMember))

/-- The parts of a sorted list around one of its elements. -/
theorem Sorted.around [Std.LawfulEqCmp cmp] {element : α}
    {below above : List α}
    (sorted : Sorted cmp key (below ++ element :: above)) :
    Around cmp key (key element) below [element] above := by
  obtain ⟨_, rest, across⟩ := List.pairwise_append.mp sorted
  obtain ⟨ahead, _⟩ := List.pairwise_cons.mp rest
  refine ⟨?_, ?_, ?_⟩
  · intro other member
    exact across other member element List.mem_cons_self
  · intro other member
    rw [List.mem_singleton.mp member]
    exact Std.ReflCmp.compare_self
  · intro other member
    exact Std.OrientedCmp.gt_iff_lt.mpr (ahead other member)

/-- Setting a key adds an element where the key is new. -/
theorem Sorted.length_put [Std.LawfulEqCmp cmp] {elements : List α}
    (sorted : Sorted cmp key elements) (element : α) :
    (put cmp key elements element).length =
      if lookup cmp key elements (key element) = none then
        elements.length + 1
      else elements.length := by
  obtain ⟨below, middle, above, rfl, around, single⟩ :=
    sorted.exists_around (key element)
  rw [around.put_eq, around.lookup_eq]
  simp only [List.length_append, List.length_cons]
  cases middle with
  | nil =>
      rw [List.head?_nil, if_pos rfl, List.length_nil]
      omega
  | cons first rest =>
      rw [List.head?_cons, if_neg (by simp)]
      simp only [List.length_cons] at single ⊢
      omega

end Ordered

/-- Distinct addresses below a bound, zero not among them, are fewer than the
bound. -/
theorem length_lt_of_nodup {addresses : List Nat} {bound : Nat}
    (nodup : addresses.Nodup) (proper : 0 ∉ addresses)
    (below : ∀ address ∈ addresses, address < bound) (positive : 0 < bound) :
    addresses.length < bound := by
  have inside : (0 :: addresses) ⊆ List.range bound := by
    intro address member
    rcases List.mem_cons.mp member with rfl | member
    · exact List.mem_range.mpr positive
    · exact List.mem_range.mpr (below address member)
  have short :=
    (List.subperm_of_subset (List.nodup_cons.mpr ⟨proper, nodup⟩)
      inside).length_le
  rw [List.length_range, List.length_cons] at short
  exact short

/-- Erasing keeps a list sorted. -/
theorem Sorted.erase {elements : List α} (sorted : Sorted cmp key elements)
    (k : κ) :
    Sorted cmp key (erase cmp key elements k) :=
  List.Pairwise.filter _ sorted

/-! ## Two parts -/

/-- Setting a key that is below the second part. -/
theorem put_append_left {first second : List α} {element : α}
    (above : ∀ other ∈ second, cmp (key other) (key element) = .gt) :
    put cmp key (first ++ second) element =
      put cmp key first element ++ second := by
  have low : second.filter
      (fun other => cmp (key other) (key element) == .lt) = [] :=
    List.filter_eq_nil_iff.mpr
      (fun other member => by simp [above other member])
  have high : second.filter
      (fun other => cmp (key other) (key element) == .gt) = second :=
    List.filter_eq_self.mpr
      (fun other member => by simp [above other member])
  rw [put, put, List.filter_append, List.filter_append, low, high,
    List.append_nil, List.append_assoc, List.cons_append]

/-- Setting a key that is above the first part. -/
theorem put_append_right {first second : List α} {element : α}
    (below : ∀ other ∈ first, cmp (key other) (key element) = .lt) :
    put cmp key (first ++ second) element =
      first ++ put cmp key second element := by
  have low : first.filter
      (fun other => cmp (key other) (key element) == .lt) = first :=
    List.filter_eq_self.mpr
      (fun other member => by simp [below other member])
  have high : first.filter
      (fun other => cmp (key other) (key element) == .gt) = [] :=
    List.filter_eq_nil_iff.mpr
      (fun other member => by simp [below other member])
  rw [put, put, List.filter_append, List.filter_append, low, high,
    List.nil_append, List.append_assoc]

theorem mem_put {elements : List α} {element other : α}
    (member : other ∈ put cmp key elements element) :
    other = element ∨ other ∈ elements := by
  rcases List.mem_append.mp member with low | rest
  · exact Or.inr (List.mem_filter.mp low).1
  · rcases List.mem_cons.mp rest with same | high
    · exact Or.inl same
    · exact Or.inr (List.mem_filter.mp high).1

end Kivo.Clib.SortedList
