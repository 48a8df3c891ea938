import Mathlib.Data.List.Basic
import Mathlib.Logic.Function.Basic

/-!
# Hashes that mix letters into a state

A hash goes through a word and mixes one letter after the other into its state.
When no step forgets the state it had or the letter it got, a difference that
has come in at one letter stays until the end, whatever follows.
-/

namespace Kivo.Clib.Mixing

variable {σ α : Type}

/-- A step that forgets neither the state nor the letter. -/
structure Mixes (step : σ → α → σ) : Prop where
  state : ∀ letter, Function.Injective (fun state => step state letter)
  letter : ∀ state, Function.Injective (step state)

variable {step : σ → α → σ} (mixes : Mixes step)

include mixes

/-- Different states stay different. -/
theorem Mixes.foldl_injective (word : List α) :
    Function.Injective (fun state => word.foldl step state) := by
  induction word with
  | nil => exact Function.injective_id
  | cons letter rest induction =>
      exact induction.comp (mixes.state letter)

/-- A word with one letter changed has another hash. -/
theorem Mixes.foldl_set_ne (start : σ) {word : List α} {index : Nat}
    {letter : α} (inside : index < word.length)
    (changed : letter ≠ word[index]) :
    (word.set index letter).foldl step start ≠ word.foldl step start := by
  have split : word =
      word.take index ++ word[index] :: word.drop (index + 1) := by
    rw [List.getElem_cons_drop, List.take_append_drop]
  rw [List.set_eq_take_append_cons_drop, if_pos inside]
  conv_rhs => rw [split]
  rw [List.foldl_append, List.foldl_cons, List.foldl_append, List.foldl_cons]
  intro same
  exact changed (mixes.letter _ (mixes.foldl_injective _ same))

end Kivo.Clib.Mixing
