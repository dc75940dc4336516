import Goap.Cache.StoredPlans

namespace Goap

open FloatOps Foundation

variable {F : Type} [FloatOps F]

namespace CachingPlanner

/-- What `makePlanCached` returns, without a list of states, when the cache is left out. -/
def searched (planner : CachingPlanner F) (initialState : State F) (meter : PlanningStateMeter F) (fuel : Nat) :
    CachedOutcome F :=
  match planner.search initialState meter none fuel with
  | none => .unfinished
  | some (.error e) => .thrown e
  | some (.ok result) => .returned result.actionsArray none

/-- The search makes just this plan. -/
def Makes (planner : CachingPlanner F) (initialState : State F) (meter : PlanningStateMeter F) (fuel : Nat)
    (plan : List (PlanningAction F)) : Prop :=
  ∃ result, planner.search initialState meter none fuel = some (.ok result) ∧ result.actionsArray = plan

/-- A stored plan is near, and the caller's list with the rest of it misses the goal. -/
def Discards (planner : CachingPlanner F) (initialState goalState : State F)
    (actionsArray : List (PlanningAction F)) : Prop :=
  (planner.nearest initialState goalState).nearStatePlan.isSome = true ∧
    NumericStateComparer.enough
      (executeActions (actionsArray ++ planner.selected initialState goalState) initialState) goalState = false

/-- The rest of the nearest stored plan has actions and leads to the goal. -/
def Knows (planner : CachingPlanner F) (initialState goalState : State F) : Prop :=
  planner.selected initialState goalState ≠ [] ∧
    NumericStateComparer.enough (executeActions (planner.selected initialState goalState) initialState) goalState =
      true

variable {planner : CachingPlanner F} {initialState goalState : State F} {meter : PlanningStateMeter F} {fuel : Nat}
  {actionsArray : List (PlanningAction F)}

/-- A caller's list that is not discarded comes back with the cached actions behind it. -/
theorem findPlan_given (planner : CachingPlanner F) (initialState goalState : State F)
    (actionsArray : List (PlanningAction F)) :
    (Discards planner initialState goalState actionsArray →
        (planner.findPlan initialState goalState actionsArray).1 = []) ∧
      (¬ Discards planner initialState goalState actionsArray →
        (planner.findPlan initialState goalState actionsArray).1 =
          actionsArray ++ planner.selected initialState goalState) := by
  change (_ → (planner.nearest initialState goalState).retPlan initialState goalState actionsArray = []) ∧
    (_ → (planner.nearest initialState goalState).retPlan initialState goalState actionsArray = _)
  have rest : planner.selected initialState goalState = (planner.nearest initialState goalState).rest := rfl
  unfold Discards
  rw [rest]
  generalize planner.nearest initialState goalState = nearest
  unfold Nearest.retPlan Nearest.rest
  cases nearest.nearStatePlan with
  | none => simp
  | some found =>
    dsimp only
    cases NumericStateComparer.enough (executeActions (actionsArray ++ found.1.plan.drop found.2) initialState)
        goalState <;> simp

theorem findPlan_nil (planner : CachingPlanner F) (initialState goalState : State F) :
    (Knows planner initialState goalState →
        (planner.findPlan initialState goalState []).1 = planner.selected initialState goalState) ∧
      (¬ Knows planner initialState goalState → (planner.findPlan initialState goalState []).1 = []) := by
  rw [findPlan_eq]
  unfold Knows
  by_cases enough : NumericStateComparer.enough (executeActions (planner.selected initialState goalState)
      initialState) goalState = true
  · simp [enough]
  · simp [enough]

/-- The outcome is the list that `findPlan` returns, or that of the search when it is empty. -/
theorem makePlanCached_outcome (planner : CachingPlanner F) (initialState : State F) (meter : PlanningStateMeter F)
    (actionsArray : List (PlanningAction F)) (fuel : Nat) :
    ((planner.findPlan initialState meter.goalState actionsArray).1 = [] →
        (planner.makePlanCached initialState meter actionsArray none fuel).1 =
          planner.searched initialState meter fuel) ∧
      ((planner.findPlan initialState meter.goalState actionsArray).1 ≠ [] →
        (planner.makePlanCached initialState meter actionsArray none fuel).1 =
          .returned (planner.findPlan initialState meter.goalState actionsArray).1 none) := by
  have ways := makePlanCached_cases planner initialState meter actionsArray none fuel
  generalize planner.makePlanCached initialState meter actionsArray none fuel = outcome at ways ⊢
  obtain ⟨outcome, planner'⟩ := outcome
  unfold searched
  cases ways with
  | hit found planned => simp [found, planned]
  | unfinished missed ran => simp [missed, ran]
  | thrown missed ran => simp [missed, ran]
  | noPlan missed ran nothing => simp [missed, ran, nothing]
  | made missed ran planned stored => simp [missed, ran]
  | @undefined _ result missed ran planned lost =>
    obtain ⟨states, trace, own⟩ := exists_storedStates ran planned
    obtain ⟨_, _, stored, _⟩ := exists_cachePlan (trace.states_ne_nil planned) planner' initialState
      meter.goalState result.actionsArray
    rw [own, stored] at lost
    cases lost

theorem searched_eq_returned {plan : List (PlanningAction F)} :
    planner.searched initialState meter fuel = .returned plan none ↔ Makes planner initialState meter fuel plan := by
  unfold searched Makes
  cases planner.search initialState meter none fuel with
  | none => simp
  | some outcome =>
    cases outcome with
    | error e => simp
    | ok result => simp

/-- The caller's list does not show exactly when it is empty, or it is discarded and
the cache alone would give what the search makes, or the search happens to make
the list that is left. -/
theorem makePlanCached_list_iff (planner : CachingPlanner F) (initialState : State F) (meter : PlanningStateMeter F)
    (actionsArray : List (PlanningAction F)) (fuel : Nat) :
    (planner.makePlanCached initialState meter actionsArray none fuel).1 =
        (planner.makePlanCached initialState meter [] none fuel).1 ↔
      actionsArray = [] ∨
        (Discards planner initialState meter.goalState actionsArray ∧
          (Knows planner initialState meter.goalState →
            Makes planner initialState meter fuel (planner.selected initialState meter.goalState))) ∨
        (¬ Discards planner initialState meter.goalState actionsArray ∧
          ¬ Knows planner initialState meter.goalState ∧
          Makes planner initialState meter fuel
            (actionsArray ++ planner.selected initialState meter.goalState)) := by
  by_cases nothing : actionsArray = []
  · simp [nothing]
  obtain ⟨discarded, kept⟩ := findPlan_given planner initialState meter.goalState actionsArray
  obtain ⟨known, unknown⟩ := findPlan_nil planner initialState meter.goalState
  obtain ⟨missed, hit⟩ := makePlanCached_outcome planner initialState meter actionsArray fuel
  obtain ⟨missed', hit'⟩ := makePlanCached_outcome planner initialState meter [] fuel
  by_cases discards : Discards planner initialState meter.goalState actionsArray
  · rw [missed (discarded discards)]
    by_cases knows : Knows planner initialState meter.goalState
    · have planned : (planner.findPlan initialState meter.goalState []).1 ≠ [] := known knows ▸ knows.1
      rw [hit' planned, known knows, searched_eq_returned]
      simp [nothing, discards, knows]
    · rw [missed' (unknown knows)]
      simp [nothing, discards, knows]
  · have left : actionsArray ++ planner.selected initialState meter.goalState ≠ [] := by simp [nothing]
    rw [hit (kept discards ▸ left), kept discards]
    by_cases knows : Knows planner initialState meter.goalState
    · have planned : (planner.findPlan initialState meter.goalState []).1 ≠ [] := known knows ▸ knows.1
      rw [hit' planned, known knows]
      simp [nothing, discards, knows]
    · rw [missed' (unknown knows), eq_comm, searched_eq_returned]
      simp [nothing, discards, knows]

/-- A new planner, which knows no action, returns the walk that the list held. -/
theorem makePlanCached_list_fails : ¬ ∀ planner : CachingPlanner Float32, Lifetime AnyCall planner →
    ∀ initialState meter actionsArray fuel,
      (planner.makePlanCached initialState meter actionsArray none fuel).1 =
        (planner.makePlanCached initialState meter [] none fuel).1 := by
  intro same
  have equal := same new .new (place 1) (comparerStateMeter (place 2)) [walk 1] 1
  have answers : ((new.makePlanCached (place 1) (comparerStateMeter (place 2)) [walk 1] none 1).1.actions.length,
      (new.makePlanCached (place 1) (comparerStateMeter (place 2)) [] none 1).1.actions.length) = (1, 0) := by
    decide +kernel
  rw [equal] at answers
  obtain ⟨one, none⟩ := Prod.mk.inj answers
  rw [one] at none
  cases none

end CachingPlanner

end Goap
