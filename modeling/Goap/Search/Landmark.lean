import Goap.Foundation.RunningMinimum
import Goap.Search.Soundness

namespace Goap.Planner

open FloatOps Foundation

section

variable {F : Type} [FloatOps F]

/-- The distance of the child that an action generates. -/
def childDistance (meter : PlanningStateMeter F) (state : State F) (action : PlanningAction F) : Option F :=
  match action.canExecute state with
  | .ok true =>
    match action.execute state with
    | .ok next => (meter.distance next).toOption
    | .error _ => none
  | _ => none

def distances (planner : Planner F) (meter : PlanningStateMeter F) (state : State F) : List F :=
  planner.planningActions.filterMap (childDistance meter state)

variable {planner : Planner F} {meter : PlanningStateMeter F} {initialState : State F}

/-- A child nearer than the frozen threshold sets the least distance, also to a greater one. -/
theorem gatherAction_minDistance (monotonic : meter.monotonic = true) (path : Option (PathPtr F))
    (state : State F) (pathCost min : F) (search : Search F) (action : PlanningAction F) :
    (gatherAction planner meter path state pathCost min search action).minDistance =
      match childDistance meter state action with
      | none => search.minDistance
      | some distance => if lt distance min then distance else search.minDistance := by
  unfold gatherAction gatherBody childDistance
  cases action.canExecute state with
  | error e => rfl
  | ok able =>
    cases able with
    | false => rfl
    | true =>
      cases action.execute state with
      | error e => rfl
      | ok next =>
        cases measured : meter.distance next with
        | error e => simp only [measured, Except.toOption]
        | ok distance =>
          simp only [measured, pathCosts, monotonic, Bool.true_and, Except.toOption]
          split <;> rfl

theorem gather_minDistance (monotonic : meter.monotonic = true) (path : Option (PathPtr F)) (state : State F)
    (pathCost : F) (search : Search F) :
    (gather planner meter path state pathCost search).minDistance =
      (distances planner meter state).foldl
        (fun minDistance distance => if lt distance search.minDistance then distance else minDistance)
        search.minDistance := by
  suffices pass : ∀ (min : F) (actions : List (PlanningAction F)) (search : Search F),
      (actions.foldl (gatherAction planner meter path state pathCost min) search).minDistance =
        (actions.filterMap (childDistance meter state)).foldl
          (fun minDistance distance => if lt distance min then distance else minDistance) search.minDistance from
    pass search.minDistance planner.planningActions { search with gathered := state :: search.gathered }
  intro min actions
  induction actions with
  | nil => exact fun _ => rfl
  | cons action rest ih =>
    intro search
    rw [List.foldl_cons, ih, gatherAction_minDistance monotonic, List.filterMap_cons]
    cases childDistance meter state action <;> rfl

theorem gather_gathered (path : Option (PathPtr F)) (state : State F) (pathCost : F) (search : Search F) :
    (gather planner meter path state pathCost search).gathered = state :: search.gathered := by
  suffices pass : ∀ (min : F) (actions : List (PlanningAction F)) (search : Search F),
      (actions.foldl (gatherAction planner meter path state pathCost min) search).gathered = search.gathered from
    pass search.minDistance planner.planningActions { search with gathered := state :: search.gathered }
  intro min actions
  induction actions with
  | nil => exact fun _ => rfl
  | cons action rest ih =>
    intro search
    obtain ⟨minDistance, effect⟩ := gatherAction_eq planner meter path state pathCost min search action
    rw [List.foldl_cons, ih, effect]
    cases childCost meter pathCost min state action <;> rfl

/-- An iteration that does not end the search rejects a path or expands a state. -/
theorem loopStep_running {search search' : Search F}
    (ran : loopStep planner meter initialState search = .running search') :
    (search'.gathered = search.gathered ∧ search'.minDistance = search.minDistance) ∨
    ∃ before path state pathCost, before.gathered = search.gathered ∧ before.minDistance = search.minDistance ∧
      search'.gathered = (gather planner meter path state pathCost before).gathered ∧
      search'.minDistance = (gather planner meter path state pathCost before).minDistance := by
  unfold loopStep visit at ran
  dsimp only at ran
  split at ran
  · cases ran
  · split at ran
    · cases ran
    · cases ran
    · split at ran
      · cases ran
      · rename_i path unvisitedPaths _ _ state memo _
        split at ran
        · cases ran
          exact .inl ⟨rfl, rfl⟩
        · split at ran
          · cases ran
          · cases ran
          · cases ran
            exact .inr ⟨{ search with
              unvisitedPaths, memo, visitedStates := state :: search.visitedStates }, some path, state, path.cost,
              rfl, rfl, rfl, rfl⟩

end

variable {planner : Planner ℚ} {meter : PlanningStateMeter ℚ} {initialState : State ℚ}

/-- The least distance is that of all children generated so far, and at most 1. -/
def HoldsLeast (planner : Planner ℚ) (meter : PlanningStateMeter ℚ) (search : Search ℚ) : Prop :=
  search.minDistance = least 1 (search.gathered.flatMap (distances planner meter))

/-- In the latest expansion no child is nearer than the last of those that are
nearer than 1 and than every child of the expansions before. -/
def NearestLast (planner : Planner ℚ) (meter : PlanningStateMeter ℚ) (search : Search ℚ) : Prop :=
  ∀ state earlier, search.gathered = state :: earlier →
    LastIsLeast (least 1 (earlier.flatMap (distances planner meter))) (distances planner meter state)

/-- An expansion from the least distance ends with the least distance exactly if
its nearest child comes last. -/
theorem holdsLeast_gather (monotonic : meter.monotonic = true) (path : Option (PathPtr ℚ)) (state : State ℚ)
    (pathCost : ℚ) {before after : Search ℚ} (holds : HoldsLeast planner meter before)
    (gathered : after.gathered = (gather planner meter path state pathCost before).gathered)
    (minDistance : after.minDistance = (gather planner meter path state pathCost before).minDistance) :
    HoldsLeast planner meter after ↔ NearestLast planner meter after := by
  rw [gather_gathered] at gathered
  rw [gather_minDistance monotonic] at minDistance
  have reordered : least 1 (after.gathered.flatMap (distances planner meter)) =
      least before.minDistance (distances planner meter state) := by
    rw [gathered, List.flatMap_cons, least_perm List.perm_append_comm, least_append, holds]
  have last : after.minDistance = lastBelow before.minDistance (distances planner meter state) := by
    rw [minDistance, lastBelow]
    congr 1
    funext result value
    exact if_congr decide_eq_true_iff rfl rfl
  rw [HoldsLeast, last, reordered, lastBelow_eq_least_iff]
  constructor
  · intro nearest other earlier same
    obtain ⟨rfl, rfl⟩ := List.cons.inj (same.symm.trans gathered)
    rwa [← holds]
  · intro nearest
    rw [holds]
    exact nearest state before.gathered gathered

theorem start_eq_gather (planner : Planner ℚ) (meter : PlanningStateMeter ℚ) (initialState : State ℚ) :
    ∃ before, HoldsLeast planner meter before ∧
      start planner meter initialState = gather planner meter none initialState 0 before := by
  refine ⟨_, ?_, rfl⟩
  exact rfl

/-- Where the least distance held before, it holds after the search's latest
expansion exactly if the nearest child came last in it. -/
theorem holdsLeast_loopStep (monotonic : meter.monotonic = true) {search search' : Search ℚ}
    (holds : HoldsLeast planner meter search)
    (ran : loopStep planner meter initialState search = .running search') :
    (HoldsLeast planner meter search' ∧ search'.gathered = search.gathered) ∨
      (HoldsLeast planner meter search' ↔ NearestLast planner meter search') := by
  rcases loopStep_running ran with ⟨gathered, minDistance⟩ |
    ⟨before, path, state, pathCost, sameGathered, sameDistance, gathered, minDistance⟩
  · left
    rw [HoldsLeast, gathered, minDistance]
    exact ⟨holds, rfl⟩
  · right
    rw [HoldsLeast, ← sameGathered, ← sameDistance] at holds
    exact holdsLeast_gather monotonic path state pathCost holds gathered minDistance

def KeepsLeast (planner : Planner ℚ) (meter : PlanningStateMeter ℚ) (initialState : State ℚ) : Prop :=
  ∀ search, Explored planner meter initialState search → HoldsLeast planner meter search

def ExpandsNearestLast (planner : Planner ℚ) (meter : PlanningStateMeter ℚ) (initialState : State ℚ) : Prop :=
  ∀ search, Explored planner meter initialState search → NearestLast planner meter search

/-- After every expansion the least distance is that of all children generated so
far, exactly if in every expansion the nearest new child comes last. -/
theorem keepsLeast_iff (planner : Planner ℚ) (meter : PlanningStateMeter ℚ) (initialState : State ℚ)
    (monotonic : meter.monotonic = true) :
    KeepsLeast planner meter initialState ↔ ExpandsNearestLast planner meter initialState := by
  obtain ⟨empty, fresh, began⟩ := start_eq_gather planner meter initialState
  have first := holdsLeast_gather monotonic none initialState 0 fresh (congrArg Search.gathered began)
    (congrArg Search.minDistance began)
  constructor
  · intro keeps search explored
    induction explored with
    | start => exact first.mp (keeps _ .start)
    | step before ran ih =>
      rcases holdsLeast_loopStep monotonic (keeps _ before) ran with ⟨_, same⟩ | exactly
      · rw [NearestLast, same]
        exact ih
      · exact exactly.mp (keeps _ (before.step ran))
  · intro nearest search explored
    induction explored with
    | start => exact first.mpr (nearest _ .start)
    | step before ran ih =>
      rcases holdsLeast_loopStep monotonic ih ran with ⟨holds, _⟩ | exactly
      · exact holds
      · exact exactly.mpr (nearest _ (before.step ran))

def pays (cost : ℚ) : PlanningAction ℚ where
  name := "pays"
  validator _ := .ok 1
  executor state := .ok (state.setCost cost)

/-- The distance is the cost, and no state is enough. -/
def costMeter : PlanningStateMeter ℚ where
  goalState := .new
  monotonic := true
  distance state := .ok |state.cost|
  enough _ := .ok false

def cheaperLast : Planner ℚ := ⟨.BreadthFirst, [pays (1 / 2), pays (1 / 4)], none⟩

theorem keepsLeast_cheaperLast : KeepsLeast cheaperLast costMeter State.new := by
  apply (keepsLeast_iff cheaperLast costMeter State.new rfl).mpr
  intro search _ state earlier _
  apply lastIsLeast_of_pairwise
  have falling : distances cheaperLast costMeter state = [|1 / 2|, |1 / 4|] := rfl
  rw [falling]
  norm_num

def dearer : Planner ℚ := ⟨.BreadthFirst, [pays (1 / 4), pays (1 / 2)], none⟩

theorem keepsLeast_fails : costMeter.monotonic = true ∧
    (∀ state distance, costMeter.distance state = .ok distance → 0 ≤ distance) ∧
    ¬ KeepsLeast dearer costMeter State.new := by
  refine ⟨rfl, ?_, ?_⟩
  · intro state distance measured
    cases measured
    exact abs_nonneg _
  · intro keeps
    have kept : HoldsLeast dearer costMeter (start dearer costMeter .new) := keeps _ .start
    have last : (start dearer costMeter .new).minDistance = 1 / 2 := by decide +kernel
    have nearest : least 1 ((start dearer costMeter .new).gathered.flatMap (distances dearer costMeter)) = 1 / 4 := by
      decide +kernel
    rw [HoldsLeast, last, nearest] at kept
    exact absurd kept (by decide +kernel)

end Goap.Planner
