import Mathlib.Data.List.Basic

/-!
# Runs that may be repeated

A run is a sequence of actions on a state.  Repeating a run makes no difference
in two cases: when no action undoes the effect of another one, and when every
action overwrites the state or leaves it alone.
-/

namespace Kivo.Clib.Repeating

variable {σ α : Type} {step : σ → α → σ} {actions : List α}

/-- A state that an action does not change any more. -/
def Settled (step : σ → α → σ) (action : α) (state : σ) : Prop :=
  step state action = state

/-! ## Actions that settle -/

section Settling

variable
  (kept : ∀ action ∈ actions, ∀ other ∈ actions, ∀ state,
    Settled step action state → Settled step action (step state other))

include kept

/-- A settled action stays settled through a run. -/
theorem settled_foldl
    {action : α}
    (member : action ∈ actions)
    {others : List α}
    (part : ∀ other ∈ others, other ∈ actions)
    {state : σ}
    (settled : Settled step action state) :
    Settled step action (others.foldl step state) := by
  induction others generalizing state with
  | nil => exact settled
  | cons other others induction =>
      apply induction
      · exact fun later inside => part later (List.mem_cons_of_mem _ inside)
      · exact kept action member other (part other List.mem_cons_self) state
          settled

/-- A run settles each of its actions. -/
theorem settled_of_mem
    (settles : ∀ action ∈ actions, ∀ state,
      Settled step action (step state action))
    {others : List α}
    (part : ∀ other ∈ others, other ∈ actions)
    {action : α}
    (member : action ∈ others)
    (state : σ) :
    Settled step action (others.foldl step state) := by
  induction others generalizing state with
  | nil => cases member
  | cons other others induction =>
      have rest : ∀ later ∈ others, later ∈ actions :=
        fun later inside => part later (List.mem_cons_of_mem _ inside)
      rcases List.mem_cons.mp member with rfl | later
      · have here := part action List.mem_cons_self
        exact settled_foldl kept here rest (settles action here state)
      · exact induction rest later (step state other)

/-- Repeating a run of settling actions makes no difference. -/
theorem foldl_settling
    (settles : ∀ action ∈ actions, ∀ state,
      Settled step action (step state action))
    (state : σ) :
    actions.foldl step (actions.foldl step state) =
      actions.foldl step state := by
  have settled : ∀ action ∈ actions,
      Settled step action (actions.foldl step state) :=
    fun action member => settled_of_mem kept settles (fun _ => id) member state
  generalize actions.foldl step state = final at settled
  clear kept settles
  induction actions with
  | nil => rfl
  | cons action rest induction =>
      rw [List.foldl_cons, settled action List.mem_cons_self]
      exact induction
        (fun later member => settled later (List.mem_cons_of_mem _ member))

end Settling

/-! ## Actions that overwrite -/

/-- A run of actions that overwrite the state or leave it alone does one or the
other. -/
theorem foldl_overwrites_or_keeps
    (plain : ∀ action ∈ actions,
      (∀ state, step state action = state) ∨
        ∀ state other, step state action = step other action) :
    (∀ state, actions.foldl step state = state) ∨
      ∀ state other, actions.foldl step state = actions.foldl step other := by
  induction actions with
  | nil => exact Or.inl (fun _ => rfl)
  | cons action rest induction =>
      have later := induction
        (fun other member => plain other (List.mem_cons_of_mem _ member))
      rcases later with keeps | overwrites
      · rcases plain action List.mem_cons_self with here | here
        · left
          intro state
          rw [List.foldl_cons, here, keeps]
        · right
          intro state other
          rw [List.foldl_cons, List.foldl_cons, here state other]
      · right
        intro state other
        exact overwrites (step state action) (step other action)

/-- Repeating a run of such actions makes no difference. -/
theorem foldl_overwriting
    (plain : ∀ action ∈ actions,
      (∀ state, step state action = state) ∨
        ∀ state other, step state action = step other action)
    (state : σ) :
    actions.foldl step (actions.foldl step state) =
      actions.foldl step state := by
  rcases foldl_overwrites_or_keeps plain with keeps | overwrites
  · exact keeps _
  · exact overwrites _ _

/-! ## Replaying a whole log -/

/-- A log is replayed over what its first part left behind, or over the start
itself, with the same result. -/
theorem foldl_append_of_repeated
    {front back : List α}
    {start state : σ}
    (repeated : front.foldl step (front.foldl step start) =
      front.foldl step start)
    (known : state = start ∨ state = front.foldl step start) :
    (front ++ back).foldl step state = (front ++ back).foldl step start := by
  rw [List.foldl_append, List.foldl_append]
  rcases known with rfl | rfl
  · rfl
  · rw [repeated]

end Kivo.Clib.Repeating
