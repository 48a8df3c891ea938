import Mathlib.Data.List.Basic
import Mathlib.Logic.Relation

/-!
# Runs of a machine and forward simulation

A machine answers every input and moves to a new state.  What one step keeps,
a whole run keeps, as long as the steps of the run are taken where they are
allowed; and a machine that is simulated step by step by another one gives the
same answers along every run.
-/

namespace Kivo.Clib.Simulation

variable {σ τ ι κ ο : Type}

/-- Feed inputs to a machine: the state it ends in and its answers. -/
def run (step : σ → ι → σ × ο) : σ → List ι → σ × List ο
  | state, [] => (state, [])
  | state, input :: rest =>
      let first := step state input
      let last := run step first.1 rest
      (last.1, first.2 :: last.2)

/-- Every step of a run is taken where it is allowed. -/
def Along (step : σ → ι → σ × ο) (allowed : σ → ι → Prop) :
    σ → List ι → Prop
  | _, [] => True
  | state, input :: rest =>
      allowed state input ∧ Along step allowed (step state input).1 rest

instance alongDecidable (step : σ → ι → σ × ο) (allowed : σ → ι → Prop)
    [∀ state input, Decidable (allowed state input)] :
    ∀ (state : σ) (inputs : List ι), Decidable (Along step allowed state inputs)
  | _, [] => inferInstanceAs (Decidable True)
  | state, input :: rest =>
      have := alongDecidable step allowed (step state input).1 rest
      inferInstanceAs (Decidable (allowed state input ∧
        Along step allowed (step state input).1 rest))

theorem along_of_forall {step : σ → ι → σ × ο} {allowed : ι → Prop}
    {inputs : List ι} (fine : ∀ input ∈ inputs, allowed input) (state : σ) :
    Along step (fun _ input => allowed input) state inputs := by
  induction inputs generalizing state with
  | nil => trivial
  | cons input rest induction =>
      refine ⟨fine input List.mem_cons_self, induction ?_ _⟩
      intro other member
      exact fine other (List.mem_cons_of_mem _ member)

theorem Along.and {step : σ → ι → σ × ο} {left right : σ → ι → Prop}
    {state : σ} {inputs : List ι} (first : Along step left state inputs)
    (second : Along step right state inputs) :
    Along step (fun state input => left state input ∧ right state input) state
      inputs := by
  induction inputs generalizing state with
  | nil => trivial
  | cons input rest induction =>
      exact ⟨⟨first.1, second.1⟩, induction first.2 second.2⟩

/-- A run is allowed when every step that extends a front part of it is. -/
theorem along_iff_fronts {step : σ → ι → σ × ο} {allowed : σ → ι → Prop}
    {state : σ} {inputs : List ι} :
    Along step allowed state inputs ↔
      ∀ front input, front ++ [input] <+: inputs →
        allowed (run step state front).1 input := by
  induction inputs generalizing state with
  | nil =>
      refine ⟨?_, fun _ => trivial⟩
      rintro - front input ⟨rest, shape⟩
      simp at shape
  | cons first rest induction =>
      constructor
      · rintro ⟨here, later⟩ front input longer
        cases front with
        | nil =>
            obtain ⟨rfl, -⟩ := List.cons_prefix_cons.mp longer
            exact here
        | cons other front =>
            obtain ⟨rfl, shorter⟩ := List.cons_prefix_cons.mp longer
            exact induction.mp later front input shorter
      · intro fronts
        refine ⟨fronts [] first ⟨rest, rfl⟩, induction.mpr ?_⟩
        intro front input longer
        exact fronts (first :: front) input
          (List.cons_prefix_cons.mpr ⟨rfl, longer⟩)

theorem run_append (step : σ → ι → σ × ο) (state : σ)
    (first second : List ι) :
    run step state (first ++ second) =
      ((run step (run step state first).1 second).1,
        (run step state first).2 ++
          (run step (run step state first).1 second).2) := by
  induction first generalizing state with
  | nil => rfl
  | cons input rest induction =>
      rw [List.cons_append, run, run, induction]
      rfl

/-- What every allowed step keeps, an allowed run keeps. -/
theorem run_invariant {step : σ → ι → σ × ο} {allowed : σ → ι → Prop}
    {holds : σ → Prop}
    (keeps : ∀ state input, holds state → allowed state input →
      holds (step state input).1)
    {state : σ} (start : holds state) {inputs : List ι}
    (fine : Along step allowed state inputs) :
    holds (run step state inputs).1 := by
  induction inputs generalizing state with
  | nil => exact start
  | cons input rest induction =>
      exact induction (keeps state input start fine.1) fine.2

/-- A machine simulated step by step gives the same answers along a run. -/
theorem run_simulation {step : σ → ι → σ × ο} {step' : τ → ι → τ × ο}
    {allowed : σ → ι → Prop} {related : σ → τ → Prop}
    (keeps : ∀ state state' input, related state state' →
      allowed state input →
      related (step state input).1 (step' state' input).1 ∧
        (step state input).2 = (step' state' input).2)
    {state : σ} {state' : τ} (start : related state state')
    {inputs : List ι} (fine : Along step allowed state inputs) :
    related (run step state inputs).1 (run step' state' inputs).1 ∧
      (run step state inputs).2 = (run step' state' inputs).2 := by
  induction inputs generalizing state state' with
  | nil => exact ⟨start, rfl⟩
  | cons input rest induction =>
      obtain ⟨next, answer⟩ := keeps state state' input start fine.1
      obtain ⟨last, answers⟩ := induction next fine.2
      refine ⟨last, ?_⟩
      rw [run, run, answer, answers]

/-- A component of the state that only some inputs reach is the result of
these inputs. -/
theorem foldl_component {store : σ → ι → σ} {component : σ → τ}
    {change : τ → ι → τ} {reaches : ι → Bool}
    (own : ∀ state input, reaches input = true →
      component (store state input) = change (component state) input)
    (other : ∀ state input, reaches input = false →
      component (store state input) = component state)
    (state : σ) (inputs : List ι) :
    component (inputs.foldl store state) =
      (inputs.filter reaches).foldl change (component state) := by
  induction inputs generalizing state with
  | nil => rfl
  | cons input rest induction =>
      rw [List.foldl_cons, induction, List.filter_cons]
      cases here : reaches input with
      | false => rw [other state input here, if_neg Bool.false_ne_true]
      | true => rw [own state input here, if_pos rfl, List.foldl_cons]

/-! ## Two runs that may part -/

/-- Every step of a run is taken where it is allowed, up to the first one that
settles the run. -/
def AlongUntil (step : σ → ι → σ × ο) (settles : ι → Prop)
    (allowed : σ → ι → Prop) : σ → List ι → Prop
  | _, [] => True
  | state, input :: rest =>
      allowed state input ∧
        (¬ settles input →
          AlongUntil step settles allowed (step state input).1 rest)

section Parting

variable {step : σ → ι → σ × ο} {settles fine : ι → Prop}
  {allowed : σ → ι → Prop} {apart alike : σ → σ → Prop}
  (keeps : ∀ state state' input, fine input → alike state state' →
    alike (step state input).1 (step state' input).1 ∧
      (step state input).2 = (step state' input).2)
  (moves : ∀ state state' input, fine input → apart state state' →
    allowed state input →
    (settles input → alike (step state input).1 (step state' input).1) ∧
      (¬ settles input → apart (step state input).1 (step state' input).1) ∧
      (step state input).2 = (step state' input).2)
  (parts : ∀ state state' input, fine input → apart state state' →
    ¬ allowed state input → (step state input).2 ≠ (step state' input).2)
  {inputs : List ι} (all : ∀ input ∈ inputs, fine input)
  {state state' : σ} (start : apart state state')

include keeps moves all start

/-- As long as the steps are allowed, two runs stay apart unnoticed until they
are alike. -/
theorem run_unnoticed
    (along : AlongUntil step settles allowed state inputs) :
    (apart (run step state inputs).1 (run step state' inputs).1 ∨
        alike (run step state inputs).1 (run step state' inputs).1) ∧
      (run step state inputs).2 = (run step state' inputs).2 := by
  induction inputs generalizing state state' with
  | nil => exact ⟨Or.inl start, rfl⟩
  | cons input rest induction =>
      have here := all input List.mem_cons_self
      have later : ∀ other ∈ rest, fine other :=
        fun other member => all other (List.mem_cons_of_mem _ member)
      obtain ⟨settled, open_, answer⟩ :=
        moves state state' input here start along.1
      by_cases last : settles input
      · obtain ⟨final, answers⟩ := run_simulation
          (fun state state' input related fine =>
            keeps state state' input fine related)
          (settled last)
          (along_of_forall later (step state input).1)
        refine ⟨Or.inr final, ?_⟩
        rw [run, run, answer, answers]
      · obtain ⟨final, answers⟩ :=
          induction later (open_ last) (along.2 last)
        refine ⟨final, ?_⟩
        rw [run, run, answer, answers]

include parts

/-- Two runs answer alike exactly as long as the steps are allowed. -/
theorem run_unnoticed_iff :
    (run step state inputs).2 = (run step state' inputs).2 ↔
      AlongUntil step settles allowed state inputs := by
  constructor
  · intro same
    induction inputs generalizing state state' with
    | nil => trivial
    | cons input rest induction =>
        have here := all input List.mem_cons_self
        have later : ∀ other ∈ rest, fine other :=
          fun other member => all other (List.mem_cons_of_mem _ member)
        rw [run, run] at same
        obtain ⟨first, others⟩ := List.cons.inj same
        by_cases fits : allowed state input
        · refine ⟨fits, ?_⟩
          intro unsettled
          exact induction later
            ((moves state state' input here start fits).2.1 unsettled) others
        · exact absurd first (parts state state' input here start fits)
  · intro along
    exact (run_unnoticed keeps moves all start along).2

end Parting

/-! ## Inputs that do not matter -/

/-- The answers of a run to the inputs that are asked for. -/
def answersTo (step : σ → ι → σ × ο) (asked : ι → Bool) :
    σ → List ι → List ο
  | _, [] => []
  | state, input :: rest =>
      let first := step state input
      if asked input then first.2 :: answersTo step asked first.1 rest
      else answersTo step asked first.1 rest

theorem answersTo_append (step : σ → ι → σ × ο) (asked : ι → Bool)
    (state : σ) (first second : List ι) :
    answersTo step asked state (first ++ second) =
      answersTo step asked state first ++
        answersTo step asked (run step state first).1 second := by
  induction first generalizing state with
  | nil => rfl
  | cons input rest induction =>
      rw [List.cons_append, answersTo, answersTo, run]
      split_ifs
      · rw [induction, List.cons_append]
      · exact induction _

/--
Inputs can be removed from a run without changing an answer that is asked for
when a relation between the two runs survives them, and every other input keeps
the relation and is answered alike.
-/
theorem answersTo_removed {step : σ → ι → σ × ο} {asked removed : ι → Bool}
    {allowed : σ → ι → Prop} {related : σ → σ → Prop}
    (unasked : ∀ input, removed input = true → asked input = false)
    (skips : ∀ state state' input, allowed state input →
      removed input = true → related state state' →
      related (step state input).1 state')
    (keeps : ∀ state state' input, allowed state input →
      removed input = false → related state state' →
      related (step state input).1 (step state' input).1 ∧
        (asked input = true →
          (step state input).2 = (step state' input).2))
    {inputs : List ι} {state state' : σ}
    (fine : Along step allowed state inputs)
    (start : related state state') :
    answersTo step asked state inputs =
      answersTo step asked state'
        (inputs.filter (fun input => !removed input)) := by
  induction inputs generalizing state state' with
  | nil => rfl
  | cons input rest induction =>
      obtain ⟨here, later⟩ := fine
      cases gone : removed input with
      | true =>
          have next := skips state state' input here gone start
          rw [answersTo, List.filter_cons, gone,
            if_neg (by rw [unasked input gone]; exact Bool.false_ne_true)]
          exact induction later next
      | false =>
          obtain ⟨next, answer⟩ := keeps state state' input here gone start
          rw [answersTo, List.filter_cons, gone]
          rw [Bool.not_false, if_pos rfl, answersTo]
          cases wanted : asked input with
          | true =>
              rw [if_pos rfl, if_pos rfl, answer wanted, induction later next]
          | false =>
              rw [if_neg Bool.false_ne_true, if_neg Bool.false_ne_true,
                induction later next]

/-- Two machines give the same answers to the inputs that are asked for when a
relation between their states survives every input. -/
theorem answersTo_related {step : σ → ι → σ × ο} {step' : τ → ι → τ × ο}
    {asked : ι → Bool} {allowed : ι → Prop} {related : σ → τ → Prop}
    (keeps : ∀ state state' input, allowed input → related state state' →
      related (step state input).1 (step' state' input).1 ∧
        (asked input = true →
          (step state input).2 = (step' state' input).2))
    {inputs : List ι} (fine : ∀ input ∈ inputs, allowed input)
    {state : σ} {state' : τ} (start : related state state') :
    answersTo step asked state inputs =
      answersTo step' asked state' inputs := by
  induction inputs generalizing state state' with
  | nil => rfl
  | cons input rest induction =>
      obtain ⟨next, answer⟩ :=
        keeps state state' input (fine input List.mem_cons_self) start
      have later := induction
        (fun other member => fine other (List.mem_cons_of_mem _ member)) next
      rw [answersTo, answersTo, later]
      cases wanted : asked input with
      | true => rw [answer wanted]
      | false => rfl

/-! ## Machines that may get stuck -/

section Stuck

variable {step : σ → ι → Option σ} {allowed : σ → ι → Prop} {state last : σ}
  {first second : List ι}

/-- Every step of a run is taken where it is allowed, as long as the machine
does not get stuck. -/
def Throughout (step : σ → ι → Option σ) (allowed : σ → ι → Prop) :
    σ → List ι → Prop
  | _, [] => True
  | state, input :: rest =>
      allowed state input ∧
        ∀ next, step state input = some next →
          Throughout step allowed next rest

instance throughoutDecidable [∀ state input, Decidable (allowed state input)] :
    (inputs : List ι) → (state : σ) →
      Decidable (Throughout step allowed state inputs)
  | [], _ => isTrue trivial
  | input :: rest, state =>
      have : Decidable (∀ next, step state input = some next →
          Throughout step allowed next rest) :=
        match step state input with
        | none => isTrue (fun _ same => nomatch same)
        | some next =>
            have := throughoutDecidable rest next
            decidable_of_iff (Throughout step allowed next rest)
              ⟨fun fine _ same => Option.some.inj same ▸ fine,
                fun fine => fine next rfl⟩
      inferInstanceAs (Decidable (_ ∧ _))

theorem Throughout.front
    (throughout : Throughout step allowed state (first ++ second)) :
    Throughout step allowed state first := by
  induction first generalizing state with
  | nil => trivial
  | cons input rest induction =>
      exact ⟨throughout.1, fun next stepped =>
        induction (throughout.2 next stepped)⟩

theorem Throughout.back
    (throughout : Throughout step allowed state (first ++ second))
    (finished : first.foldlM step state = some last) :
    Throughout step allowed last second := by
  induction first generalizing state with
  | nil =>
      obtain rfl : state = last := Option.some.inj finished
      exact throughout
  | cons input rest induction =>
      rw [List.foldlM_cons] at finished
      obtain ⟨next, stepped, finished⟩ :=
        Option.bind_eq_some_iff.mp finished
      exact induction (throughout.2 next stepped) finished

end Stuck

/-! ## What every run ends in -/

section Ending

variable {moves : σ → σ → Prop} {goal holds : σ → Prop} {state : σ}

/-- Every run from a state comes to an end, and ends where the goal holds. -/
inductive Inevitably (moves : σ → σ → Prop) (goal : σ → Prop) : σ → Prop where
  | intro {state : σ} (ended : (∀ next, ¬ moves state next) → goal state)
      (later : ∀ next, moves state next → Inevitably moves goal next) :
      Inevitably moves goal state

/-- Runs end if every move from a state that they reach lowers a rank, and they
end well if every state that they reach and cannot leave is a good one. -/
theorem inevitably_of_kept_rank (rank : σ → Nat)
    (lowers : ∀ state next, holds state → moves state next →
      rank next < rank state)
    (keeps : ∀ state next, holds state → moves state next → holds next)
    (ends : ∀ state, holds state → (∀ next, ¬ moves state next) → goal state)
    (start : holds state) : Inevitably moves goal state := by
  induction bound : rank state using Nat.strongRecOn
    generalizing state with
  | _ height induction =>
      refine .intro (ends state start) (fun next moved => ?_)
      have lower := lowers state next start moved
      exact induction (rank next) (bound ▸ lower) (keeps state next start moved)
        rfl

/-- Runs end if every move lowers a rank, and they end well if every state that
they reach and cannot leave is a good one. -/
theorem inevitably_of_rank (rank : σ → Nat)
    (lowers : ∀ state next, moves state next → rank next < rank state)
    (keeps : ∀ state next, holds state → moves state next → holds next)
    (ends : ∀ state, holds state → (∀ next, ¬ moves state next) → goal state)
    (start : holds state) : Inevitably moves goal state :=
  inevitably_of_kept_rank rank (fun state next _ => lowers state next) keeps
    ends start

/-- A goal that is inevitable is reached by some run. -/
theorem Inevitably.reached (inevitable : Inevitably moves goal state) :
    ∃ last, Relation.ReflTransGen moves state last ∧ goal last := by
  induction inevitable with
  | @intro state ended later induction =>
      by_cases stuck : ∀ next, ¬ moves state next
      · exact ⟨state, .refl, ended stuck⟩
      · obtain ⟨next, moved⟩ := not_forall_not.mp stuck
        obtain ⟨last, run, good⟩ := induction next moved
        exact ⟨last, .head moved run, good⟩

/-- What every move keeps holds in every state that is reached. -/
theorem holds_of_reached {last : σ}
    (keeps : ∀ state next, holds state → moves state next → holds next)
    (start : holds state) (run : Relation.ReflTransGen moves state last) :
    holds last := by
  induction run with
  | refl => exact start
  | tail _ moved induction => exact keeps _ _ induction moved

end Ending

/-! ## Runs with labels -/

/-- A run of a machine whose steps are labelled. -/
inductive Traced (step : σ → ι → σ → Prop) : σ → List ι → σ → Prop where
  | nil {state : σ} : Traced step state [] state
  | cons {state next last : σ} {label : ι} {labels : List ι}
      (first : step state label next) (rest : Traced step next labels last) :
      Traced step state (label :: labels) last

/-- A machine that answers every step with a label of another one. -/
theorem run_traced {step : σ → κ → σ × ι} {step' : τ → ι → τ → Prop}
    {holds : σ → Prop} {view : σ → τ}
    (keeps : ∀ state input, holds state →
      holds (step state input).1 ∧
        step' (view state) (step state input).2 (view (step state input).1))
    {state : σ} (start : holds state) (inputs : List κ) :
    holds (run step state inputs).1 ∧
      Traced step' (view state) (run step state inputs).2
        (view (run step state inputs).1) := by
  induction inputs generalizing state with
  | nil => exact ⟨start, .nil⟩
  | cons input rest induction =>
      obtain ⟨next, moved⟩ := keeps state input start
      obtain ⟨last, traced⟩ := induction next
      exact ⟨last, .cons moved traced⟩

/-- A labelled run that is followed step by step. -/
theorem Traced.followed {step : σ → ι → σ → Prop} {step' : τ → κ → τ → Prop}
    {related : σ → τ → Prop} {relabel : ι → κ}
    (follows : ∀ {state next : σ} {state' : τ} {label : ι},
      related state state' → step state label next →
        ∃ next', step' state' (relabel label) next' ∧ related next next')
    {state last : σ} {labels : List ι} (traced : Traced step state labels last)
    {state' : τ} (start : related state state') :
    ∃ last', Traced step' state' (labels.map relabel) last' ∧
      related last last' := by
  induction traced generalizing state' with
  | nil => exact ⟨state', .nil, start⟩
  | cons first _ induction =>
      obtain ⟨next', moved, related⟩ := follows start first
      obtain ⟨last', rest, ended⟩ := induction related
      exact ⟨last', .cons moved rest, ended⟩

end Kivo.Clib.Simulation
