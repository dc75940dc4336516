import Goap.Search.PlanningAction

namespace Goap

open FloatOps

variable {F : Type} [FloatOps F]

/-- The loop of `executeActions`: the state reached and the cost accumulated, none
when an exception has ended the loop. -/
def executeLoop : List (PlanningAction F) → State F → F → State F × Option F
  | [], reachedByPath, accCost => (reachedByPath, some accCost)
  | action :: rest, reachedByPath, accCost =>
    match action.canExecute reachedByPath with
    | .error _ => (reachedByPath, none)
    | .ok false => (reachedByPath, some accCost)
    | .ok true =>
      match action.execute reachedByPath with
      | .error _ => (reachedByPath, none)
      | .ok nextState => executeLoop rest nextState (accCost + nextState.cost)

def executeActions (actions : List (PlanningAction F)) (initialState : State F) : State F :=
  let initial := initialState.clone.setCost initialState.cost
  match executeLoop actions initial initial.cost with
  | (reachedByPath, none) => reachedByPath
  | (reachedByPath, some accCost) => reachedByPath.setCost accCost

/-- The next action, if there is one, refuses the state or throws. -/
def Halts (state : State F) : List (PlanningAction F) → Prop
  | [] => True
  | action :: _ => ∀ next, action.canExecute state = .ok true → action.execute state ≠ .ok next

/-- The cost accumulated along some states, by the order of the additions. -/
def accumulate (accCost : F) (states : List (State F)) : F :=
  states.foldl (fun accCost state => accCost + state.cost) accCost

theorem executeLoop_append {state : State F} {done : List (PlanningAction F)} {states : List (State F)}
    (trace : Executes state done states) (rest : List (PlanningAction F)) (accCost : F) :
    executeLoop (done ++ rest) state accCost =
      executeLoop rest (reached state states) (accumulate accCost states) := by
  induction trace generalizing accCost with
  | nil => rfl
  | @cons state next action actions states allowed step _ ih =>
    rw [List.cons_append, executeLoop, allowed, step, reached_cons]
    exact ih (accCost + next.cost)

theorem executeLoop_of_halts {state : State F} {rest : List (PlanningAction F)} (halts : Halts state rest)
    (accCost : F) : (executeLoop rest state accCost).1 = state := by
  cases rest with
  | nil => rfl
  | cons action rest =>
    unfold executeLoop
    cases allowed : action.canExecute state with
    | error e => rfl
    | ok answer =>
      cases answer with
      | false => rfl
      | true =>
        cases executed : action.execute state with
        | error e => rfl
        | ok next => exact absurd executed (halts next allowed)

theorem exists_prefix (state : State F) (actions : List (PlanningAction F)) :
    ∃ done rest states, actions = done ++ rest ∧ Executes state done states ∧
      Halts (reached state states) rest := by
  induction actions generalizing state with
  | nil => exact ⟨[], [], [], rfl, .nil, trivial⟩
  | cons action rest ih =>
    by_cases moves : ∃ next, action.canExecute state = .ok true ∧ action.execute state = .ok next
    · obtain ⟨next, allowed, executed⟩ := moves
      obtain ⟨done, left, states, split, trace, halts⟩ := ih next
      refine ⟨action :: done, left, next :: states, by rw [split, List.cons_append], ?_, ?_⟩
      · exact .cons allowed executed trace
      · rwa [reached_cons]
    · refine ⟨[], action :: rest, [], rfl, .nil, ?_⟩
      intro next allowed executed
      exact moves ⟨next, allowed, executed⟩

/-- Up to its cost, `executeActions` returns the state after the longest part of
the list that can be executed. -/
theorem executeActions_eq {initialState : State F} {done rest : List (PlanningAction F)}
    {states : List (State F)} (trace : Executes initialState done states)
    (halts : Halts (reached initialState states) rest) :
    ∃ cost, executeActions (done ++ rest) initialState = (reached initialState states).setCost cost := by
  have own : initialState.clone.setCost initialState.cost = initialState := by rw [State.clone_eq]; rfl
  simp only [executeActions, own, executeLoop_append trace rest]
  have stays := executeLoop_of_halts halts (accumulate initialState.cost states)
  generalize executeLoop rest (reached initialState states) _ = outcome at stays ⊢
  obtain ⟨last, accCost⟩ := outcome
  dsimp only at stays
  subst stays
  cases accCost with
  | none => exact ⟨_, rfl⟩
  | some accCost => exact ⟨accCost, rfl⟩

namespace Executes

variable {state : State F}

theorem states_ne_nil {actions : List (PlanningAction F)} {states : List (State F)}
    (trace : Executes state actions states) (planned : actions ≠ []) : states ≠ [] := by
  cases trace with
  | nil => exact absurd rfl planned
  | cons _ _ _ => exact List.cons_ne_nil _ _

theorem not_halts {done rest : List (PlanningAction F)} {states all : List (State F)}
    (whole : Executes state (done ++ rest) all) (trace : Executes state done states)
    (halts : Halts (reached state states) rest) : rest = [] := by
  induction trace generalizing all with
  | nil =>
    cases whole with
    | nil => rfl
    | cons allowed step _ => exact absurd step (halts _ allowed)
  | cons _ step _ ih =>
    cases whole with
    | cons _ step' others =>
      cases step.symm.trans step'
      rw [reached_cons] at halts
      exact ih others halts

end Executes

end Goap
