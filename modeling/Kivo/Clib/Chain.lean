import Mathlib.Data.List.Basic
import Mathlib.Tactic

/-!
# Linked chains

A singly linked list in a heap is given by its successor function.  A segment
says which nodes are passed when the successor is followed from a start node;
a chain is a segment that ends in the null pointer.  Linking a node in or out
changes the successor of one node of the chain.
-/

namespace Kivo.Clib.Chain

variable {α : Type}

/-! ## Segments -/

/-- Following `next` from `start` passes through the nodes, in order. -/
def Segment (next : α → α) : α → List α → Prop
  | _, [] => True
  | start, first :: rest => next start = first ∧ Segment next first rest

/-- A segment that ends in `null`. -/
def Linked (next : α → α) (null start : α) (nodes : List α) : Prop :=
  Segment next start (nodes ++ [null])

variable {next next' : α → α} {null start : α}

theorem segment_append {first second : List α} :
    Segment next start (first ++ second) ↔
      Segment next start first ∧
        Segment next (first.getLastD start) second := by
  induction first generalizing start with
  | nil => simp [Segment]
  | cons node rest induction =>
      rw [List.cons_append, Segment, Segment, induction, and_assoc,
        List.getLastD_cons]

/-- A segment depends on the successors of all its nodes but the last. -/
theorem Segment.congr {nodes : List α}
    (segment : Segment next start nodes)
    (same : ∀ node ∈ (start :: nodes).dropLast, next' node = next node) :
    Segment next' start nodes := by
  induction nodes generalizing start with
  | nil => trivial
  | cons node rest induction =>
      rw [List.dropLast_cons_of_ne_nil (by simp)] at same
      refine ⟨(same start (by simp)).trans segment.1,
        induction segment.2 ?_⟩
      intro other member
      exact same other (List.mem_cons_of_mem _ member)

/-- A chain depends on the successors of its nodes. -/
theorem Linked.congr {nodes : List α}
    (linked : Linked next null start nodes)
    (same : ∀ node ∈ start :: nodes, next' node = next node) :
    Linked next' null start nodes := by
  apply Segment.congr linked
  rw [← List.cons_append, List.dropLast_concat]
  exact same

/-- The last node of a duplicate-free segment occurs only at its end. -/
theorem getLastD_notMem_dropLast {nodes : List α}
    (nodup : (start :: nodes).Nodup) :
    nodes.getLastD start ∉ (start :: nodes).dropLast := by
  have split := List.dropLast_append_getLast
    (List.cons_ne_nil start nodes)
  have end_eq : nodes.getLastD start =
      (start :: nodes).getLast (List.cons_ne_nil start nodes) := by
    cases nodes with
    | nil => rfl
    | cons node rest =>
        rw [List.getLast_cons (List.cons_ne_nil node rest),
          List.getLastD_eq_getLast?,
          List.getLast?_eq_some_getLast (List.cons_ne_nil node rest),
          Option.getD_some]
  rw [end_eq]
  rw [← split, List.nodup_append] at nodup
  intro member
  exact nodup.2.2 _ member _ (List.mem_singleton.mpr rfl) rfl

theorem getLastD_mem (nodes : List α) :
    nodes.getLastD start ∈ start :: nodes := by
  rw [List.getLastD_eq_getLast?]
  cases last : nodes.getLast? with
  | none => simp
  | some node =>
      exact List.mem_cons_of_mem _ (List.mem_of_getLast? last)

/-! ## Linking in and out -/

/-- A fresh node is linked in behind the first part of a chain. -/
theorem Linked.insert {fresh : α} {first second : List α}
    (linked : Linked next null start (first ++ second))
    (nodup : (start :: (first ++ second)).Nodup)
    (new : fresh ∉ start :: (first ++ second))
    (toFresh : next' (first.getLastD start) = fresh)
    (fromFresh : next' fresh = next (first.getLastD start))
    (same : ∀ node ∈ start :: (first ++ second),
      node ≠ first.getLastD start → next' node = next node) :
    Linked next' null start (first ++ fresh :: second) := by
  have nodupFirst : (start :: first).Nodup := by
    rw [← List.cons_append] at nodup
    exact (List.nodup_append.mp nodup).1
  have last : first.getLastD start ∉ second := by
    intro member
    rw [← List.cons_append, List.nodup_append] at nodup
    exact nodup.2.2 _ (getLastD_mem first) _ member rfl
  rw [Linked, List.append_assoc, segment_append] at linked ⊢
  refine ⟨linked.1.congr ?_, toFresh, ?_⟩
  · intro node member
    apply same node
    · rw [← List.cons_append]
      exact List.mem_append.mpr (Or.inl (List.mem_of_mem_dropLast member))
    · rintro rfl
      exact getLastD_notMem_dropLast nodupFirst member
  · have rest := linked.2
    cases second with
    | nil => exact ⟨fromFresh.trans rest.1, trivial⟩
    | cons node second =>
        have tail : Linked next null node second := rest.2
        refine ⟨fromFresh.trans rest.1, tail.congr ?_⟩
        intro other member
        apply same other
        · exact List.mem_cons_of_mem _ (List.mem_append.mpr (Or.inr member))
        · rintro rfl
          exact last member

/-- A node is linked out of a chain. -/
theorem Linked.remove {node : α} {first second : List α}
    (linked : Linked next null start (first ++ node :: second))
    (nodup : (start :: (first ++ node :: second)).Nodup)
    (skip : next' (first.getLastD start) = next node)
    (same : ∀ other ∈ start :: (first ++ node :: second),
      other ≠ first.getLastD start → next' other = next other) :
    Linked next' null start (first ++ second) := by
  have nodupFirst : (start :: first).Nodup := by
    rw [← List.cons_append] at nodup
    exact (List.nodup_append.mp nodup).1
  have last : first.getLastD start ∉ node :: second := by
    intro member
    rw [← List.cons_append, List.nodup_append] at nodup
    exact nodup.2.2 _ (getLastD_mem first) _ member rfl
  rw [Linked, List.append_assoc, segment_append] at linked ⊢
  refine ⟨linked.1.congr ?_, ?_⟩
  · intro other member
    apply same other
    · rw [← List.cons_append]
      exact List.mem_append.mpr (Or.inl (List.mem_of_mem_dropLast member))
    · rintro rfl
      exact getLastD_notMem_dropLast nodupFirst member
  · have rest := linked.2.2
    cases second with
    | nil => exact ⟨skip.trans rest.1, trivial⟩
    | cons other second =>
        have tail : Linked next null other second := rest.2
        refine ⟨skip.trans rest.1, tail.congr ?_⟩
        intro passed member
        apply same passed
        · exact List.mem_cons_of_mem _ (List.mem_append.mpr
            (Or.inr (List.mem_cons_of_mem _ member)))
        · rintro rfl
          exact last (List.mem_cons_of_mem _ member)

/-! ## Walking -/

section Walk

variable [DecidableEq α]

/-- The nodes behind `start`, at most `fuel` of them. -/
def walk (next : α → α) (null : α) : Nat → α → List α
  | 0, _ => []
  | fuel + 1, start =>
      if next start = null then []
      else next start :: walk next null fuel (next start)

/-- `while (next != null && test(next)) current = next`. -/
def advance (next : α → α) (null : α) (test : α → Bool) : Nat → α → α
  | 0, current => current
  | fuel + 1, current =>
      if next current ≠ null ∧ test (next current) = true then
        advance next null test fuel (next current)
      else current

theorem Linked.walk_eq {nodes : List α}
    (linked : Linked next null start nodes) (proper : null ∉ nodes)
    {fuel : Nat} (enough : nodes.length < fuel) :
    walk next null fuel start = nodes := by
  induction nodes generalizing start fuel with
  | nil =>
      obtain ⟨fuel, rfl⟩ := Nat.exists_eq_add_of_lt enough
      rw [List.length_nil, Nat.zero_add, walk, if_pos linked.1]
  | cons node rest induction =>
      obtain ⟨fuel, rfl⟩ := Nat.exists_eq_add_of_lt enough
      have step : next start = node := linked.1
      rw [walk, step, if_neg (fun same => proper (by simp [same])),
        induction linked.2 (fun member => proper (by simp [member]))
          (by rw [List.length_cons]; omega)]

/-- The loop stops in front of the first node that fails the test. -/
theorem Linked.advance_eq {test : α → Bool} {first second : List α}
    (linked : Linked next null start (first ++ second))
    (proper : null ∉ first) (passed : ∀ node ∈ first, test node = true)
    (stops : ∀ node ∈ second.head?, test node = false)
    {fuel : Nat} (enough : first.length < fuel) :
    advance next null test fuel start = first.getLastD start := by
  induction first generalizing start fuel with
  | nil =>
      obtain ⟨fuel, rfl⟩ := Nat.exists_eq_add_of_lt enough
      rw [List.length_nil, Nat.zero_add, advance, if_neg]
      · rfl
      · rintro ⟨ahead, success⟩
        cases second with
        | nil => exact ahead linked.1
        | cons node rest =>
            have step : next start = node := linked.1
            rw [step, stops node rfl] at success
            exact Bool.noConfusion success
  | cons node rest induction =>
      obtain ⟨fuel, rfl⟩ := Nat.exists_eq_add_of_lt enough
      have step : next start = node := linked.1
      rw [advance, step, if_pos
        ⟨fun same => proper (by simp [same]),
          passed node List.mem_cons_self⟩,
        induction linked.2 (fun member => proper (by simp [member]))
          (fun other member => passed other (by simp [member]))
          (by rw [List.length_cons]; omega), List.getLastD_cons]

end Walk

end Kivo.Clib.Chain
