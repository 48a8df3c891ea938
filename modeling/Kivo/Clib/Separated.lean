import Mathlib.Data.List.Basic

/-!
# Texts with a separator

A list of texts that are free of a separator is kept as one text with the
separator between its parts.  Splitting the text gives back the list, and no
split ever yields a part that contains the separator.
-/

namespace Kivo.Clib.Separated

variable {α : Type}

/-! ## Splitting -/

section Splitting

variable [DecidableEq α] (separator : α)

/-- The parts of a text between its separators. -/
def pieces : List α → List (List α)
  | [] => [[]]
  | letter :: rest =>
      if letter = separator then [] :: pieces rest
      else
        match pieces rest with
        | [] => [[letter]]
        | first :: others => (letter :: first) :: others

variable {separator}

theorem pieces_ne_nil (text : List α) : pieces separator text ≠ [] := by
  cases text with
  | nil => exact List.cons_ne_nil _ _
  | cons letter rest =>
      rw [pieces]
      split_ifs
      · exact List.cons_ne_nil _ _
      · split <;> exact List.cons_ne_nil _ _

theorem pieces_cons_self (rest : List α) :
    pieces separator (separator :: rest) = [] :: pieces separator rest :=
  if_pos rfl

theorem pieces_cons_of_ne {letter : α} (plain : letter ≠ separator)
    {rest first : List α} {others : List (List α)}
    (split : pieces separator rest = first :: others) :
    pieces separator (letter :: rest) = (letter :: first) :: others := by
  rw [pieces, if_neg plain, split]

/-- A separator splits a text. -/
theorem pieces_append (front back : List α) :
    pieces separator (front ++ separator :: back) =
      pieces separator front ++ pieces separator back := by
  induction front with
  | nil =>
      rw [List.nil_append, pieces_cons_self]
      rfl
  | cons letter rest induction =>
      by_cases here : letter = separator
      · subst here
        rw [List.cons_append, pieces_cons_self, pieces_cons_self, induction]
        rfl
      · obtain ⟨first, others, split⟩ :=
          List.exists_cons_of_ne_nil (pieces_ne_nil rest)
        rw [split, List.cons_append] at induction
        rw [List.cons_append, pieces_cons_of_ne here induction,
          pieces_cons_of_ne here split]
        rfl

/-- A text without the separator is its only part. -/
theorem pieces_of_free {text : List α} (free : separator ∉ text) :
    pieces separator text = [text] := by
  induction text with
  | nil => rfl
  | cons letter rest induction =>
      have plain : letter ≠ separator :=
        fun same => free (same ▸ List.mem_cons_self)
      exact pieces_cons_of_ne plain
        (induction (fun member => free (List.mem_cons_of_mem _ member)))

/-- No part contains the separator. -/
theorem free_of_mem_pieces {text part : List α}
    (member : part ∈ pieces separator text) :
    separator ∉ part := by
  induction text generalizing part with
  | nil =>
      rw [pieces, List.mem_singleton] at member
      rw [member]
      exact List.not_mem_nil
  | cons letter rest induction =>
      by_cases here : letter = separator
      · rw [pieces, if_pos here, List.mem_cons] at member
        rcases member with rfl | later
        · exact List.not_mem_nil
        · exact induction later
      · obtain ⟨first, others, split⟩ :=
          List.exists_cons_of_ne_nil (pieces_ne_nil rest)
        rw [pieces_cons_of_ne here split, List.mem_cons] at member
        rw [split] at induction
        rcases member with rfl | later
        · intro inside
          rcases List.mem_cons.mp inside with same | behind
          · exact here same.symm
          · exact induction List.mem_cons_self behind
        · exact induction (List.mem_cons_of_mem _ later)

end Splitting

/-! ## Joining -/

/-- One text with the separator between its parts. -/
def joined (separator : α) (parts : List (List α)) : List α :=
  (parts.intersperse [separator]).flatten

variable {separator : α}

theorem joined_singleton (part : List α) : joined separator [part] = part :=
  List.append_nil part

theorem joined_cons_cons (first second : List α) (rest : List (List α)) :
    joined separator (first :: second :: rest) =
      first ++ separator :: joined separator (second :: rest) := by
  rw [joined, List.intersperse_cons_cons, List.flatten_cons,
    List.flatten_cons, List.singleton_append, joined]

/-- A part is added behind a separator. -/
theorem joined_concat {parts : List (List α)} (nonempty : parts ≠ [])
    (part : List α) :
    joined separator (parts ++ [part]) =
      joined separator parts ++ separator :: part := by
  induction parts with
  | nil => exact absurd rfl nonempty
  | cons first rest induction =>
      cases rest with
      | nil =>
          rw [List.singleton_append, joined_cons_cons, joined_singleton,
            joined_singleton]
      | cons second rest =>
          rw [List.cons_append, List.cons_append, joined_cons_cons,
            ← List.cons_append, induction (List.cons_ne_nil _ _),
            joined_cons_cons, List.append_assoc, List.cons_append]

/-- Splitting undoes joining. -/
theorem pieces_joined [DecidableEq α] {parts : List (List α)} (nonempty : parts ≠ [])
    (free : ∀ part ∈ parts, separator ∉ part) :
    pieces separator (joined separator parts) = parts := by
  induction parts with
  | nil => exact absurd rfl nonempty
  | cons first rest induction =>
      have plain := pieces_of_free (free first List.mem_cons_self)
      cases rest with
      | nil => rw [joined_singleton, plain]
      | cons second rest =>
          rw [joined_cons_cons, pieces_append, plain,
            induction (List.cons_ne_nil _ _)
              (fun part member => free part (List.mem_cons_of_mem _ member))]
          rfl

/-- Joining undoes splitting. -/
theorem joined_pieces [DecidableEq α] (text : List α) :
    joined separator (pieces separator text) = text := by
  induction text with
  | nil => rfl
  | cons letter rest induction =>
      obtain ⟨first, others, split⟩ :=
        List.exists_cons_of_ne_nil (@pieces_ne_nil _ _ separator rest)
      by_cases here : letter = separator
      · subst here
        rw [pieces_cons_self, split, joined_cons_cons, ← split, induction]
        rfl
      · rw [pieces_cons_of_ne here split]
        rw [split] at induction
        cases others with
        | nil =>
            rw [joined_singleton] at induction ⊢
            rw [induction]
        | cons second others =>
            rw [joined_cons_cons] at induction ⊢
            rw [List.cons_append, induction]

/-- The joined text of parts that are not empty is not empty. -/
theorem joined_ne_nil {parts : List (List α)} (nonempty : parts ≠ [])
    (proper : ∀ part ∈ parts, part ≠ []) :
    joined separator parts ≠ [] := by
  obtain ⟨first, rest, rfl⟩ := List.exists_cons_of_ne_nil nonempty
  have start := proper first List.mem_cons_self
  cases rest with
  | nil =>
      rw [joined_singleton]
      exact start
  | cons second rest =>
      rw [joined_cons_cons]
      exact List.append_ne_nil_of_left_ne_nil start _

/-! ## First occurrences -/

theorem eraseDups_of_nodup [BEq α] [LawfulBEq α] {elements : List α}
    (distinct : elements.Nodup) : elements.eraseDups = elements := by
  induction elements with
  | nil => rfl
  | cons first rest induction =>
      obtain ⟨fresh, others⟩ := List.nodup_cons.mp distinct
      have kept : rest.filter (fun element => !element == first) = rest := by
        refine List.filter_eq_self.mpr (fun element member => ?_)
        simpa using fun same : element = first => fresh (same ▸ member)
      rw [List.eraseDups_cons, kept, induction others]

/-- A new element is added at the end, and a known one is not. -/
theorem eraseDups_concat [BEq α] [LawfulBEq α] (elements : List α) (element : α) :
    (elements ++ [element]).eraseDups =
      if element ∈ elements then elements.eraseDups
      else elements.eraseDups ++ [element] := by
  rw [List.eraseDups_append, List.removeAll, List.filter_cons]
  split_ifs with fresh known known
  · simp [known] at fresh
  · rfl
  · exact List.append_nil _
  · simp [known] at fresh

end Kivo.Clib.Separated
