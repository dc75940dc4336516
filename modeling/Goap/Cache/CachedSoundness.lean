import Goap.Cache.Lifetime

namespace Goap

open FloatOps Foundation

variable {F : Type} [FloatOps F]

/-- The actions of the nearest plan from the nearest state on. -/
def Nearest.rest (nearest : Nearest F) : List (PlanningAction F) :=
  match nearest.nearStatePlan with
  | none => []
  | some (nearStatePlan, nearOffset) => nearStatePlan.plan.drop nearOffset

theorem Nearest.retPlan_nil (nearest : Nearest F) (intialState goalState : State F) :
    nearest.retPlan intialState goalState [] =
      if NumericStateComparer.enough (executeActions nearest.rest intialState) goalState then nearest.rest
      else [] := by
  unfold Nearest.retPlan Nearest.rest
  cases nearest.nearStatePlan with
  | none => simp
  | some found => simp

namespace CachingPlanner

/-- The cached actions that `findPlan` tests. -/
def selected (planner : CachingPlanner F) (intialState goalState : State F) : List (PlanningAction F) :=
  (Nearest.scanPlannings intialState (planner.statesCaches.subscript goalState).1 .new).rest

/-- What `findPlan` returns can be executed as a whole and leads to the goal. -/
def FindsSound (planner : CachingPlanner F) (intialState goalState : State F) : Prop :=
  (planner.findPlan intialState goalState []).1 ≠ [] →
    ∃ states, Executes intialState (planner.findPlan intialState goalState []).1 states ∧
      NumericStateComparer.enough (reached intialState states) goalState = true

/-- Where the selected actions cannot go on, the goal is not satisfied yet. -/
def HaltsShort (planner : CachingPlanner F) (intialState goalState : State F) : Prop :=
  ∀ done action rest states, planner.selected intialState goalState = done ++ action :: rest →
    Executes intialState done states → Halts (reached intialState states) (action :: rest) →
    NumericStateComparer.enough (reached intialState states) goalState = false

variable {planner : CachingPlanner F} {intialState goalState : State F}

theorem findPlan_eq (planner : CachingPlanner F) (intialState goalState : State F) :
    (planner.findPlan intialState goalState []).1 =
      if NumericStateComparer.enough (executeActions (planner.selected intialState goalState) intialState) goalState
      then planner.selected intialState goalState else [] :=
  Nearest.retPlan_nil _ _ _

/-- The test of a cached plan looks at the state where its execution halts. -/
theorem enough_executeActions {done rest : List (PlanningAction F)} {states : List (State F)}
    (trace : Executes intialState done states) (halts : Halts (reached intialState states) rest) :
    NumericStateComparer.enough (executeActions (done ++ rest) intialState) goalState =
      NumericStateComparer.enough (reached intialState states) goalState := by
  obtain ⟨cost, same⟩ := executeActions_eq trace halts
  rw [same, NumericStateComparer.enough_setCost]

/-- A plan from the cache is sound exactly when the selected actions halt in no
state that satisfies the goal. -/
theorem findPlan_sound_iff (planner : CachingPlanner F) (intialState goalState : State F) :
    FindsSound planner intialState goalState ↔ HaltsShort planner intialState goalState := by
  constructor
  · intro sound done action rest states split trace halts
    by_contra satisfied
    rw [Bool.not_eq_false] at satisfied
    have returned : (planner.findPlan intialState goalState []).1 = done ++ action :: rest := by
      rw [findPlan_eq, split, enough_executeActions trace halts, if_pos satisfied]
    obtain ⟨all, whole, _⟩ := sound (by simp [returned])
    rw [returned] at whole
    cases whole.not_halts trace halts
  · intro short planned
    have returned := findPlan_eq planner intialState goalState
    obtain ⟨done, rest, states, split, trace, halts⟩ :=
      exists_prefix intialState (planner.selected intialState goalState)
    rw [split, enough_executeActions trace halts] at returned
    by_cases satisfied : NumericStateComparer.enough (reached intialState states) goalState = true
    · rw [if_pos satisfied] at returned
      cases rest with
      | nil =>
        rw [List.append_nil] at returned
        exact ⟨states, by rwa [returned], satisfied⟩
      | cons action rest =>
        rw [short done action rest states split trace halts] at satisfied
        cases satisfied
    · rw [if_neg satisfied] at returned
      exact absurd returned planned

/-- The way from place 1 to place 2 is found from place 2 on, where it cannot be
walked: the goal is satisfied before its first step. -/
theorem findPlan_sound_fails : ¬ ∀ planner : CachingPlanner Float32, Lifetime AnyCall planner →
    ∀ intialState goalState, FindsSound planner intialState goalState := by
  intro sound
  have answers : ((new.calls (walks 1)).map fun planner =>
      (planner.findPlan (place 2) (place 2) []).1.map fun action => (action.canExecute (place 2)).toOption) =
        some [some false] := by decide +kernel
  obtain ⟨planner, ran, refuses⟩ := Option.map_eq_some_iff.mp answers
  have whole := sound planner (Lifetime.calls .new ran) (place 2) (place 2)
  unfold FindsSound at whole
  generalize (planner.findPlan (place 2) (place 2) []).1 = actions at refuses whole
  obtain ⟨action, rest, split, refused, _⟩ := List.map_eq_cons_iff.mp refuses
  rw [split] at whole
  obtain ⟨states, trace, _⟩ := whole (by simp)
  cases trace with
  | cons allowed step rest =>
    rw [allowed] at refused
    cases refused

end CachingPlanner

end Goap
