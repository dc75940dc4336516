import Goap.Search.Soundness

/-! Failing actions are isolated: a search with actions, distances and observers
that throw runs step for step like one in which the actions are not executable
where they fail and nobody observes. -/

namespace Goap

open FloatOps

variable {F : Type} [FloatOps F]

/-- Where the validator, the executor or the distance to the goal throws. -/
def PlanningAction.fails (meter : PlanningStateMeter F) (action : PlanningAction F) (state : State F) : Bool :=
  match action.canExecute state, action.execute state with
  | .error _, _ => true
  | _, .error _ => true
  | .ok _, .ok next =>
    match meter.distance next with
    | .error _ => true
    | .ok _ => false

/-- An action that is not executable where another fails, and is that one elsewhere. -/
structure Isolates (meter : PlanningStateMeter F) (action clean : PlanningAction F) : Prop where
  name : clean.name = action.name
  executor : clean.executor = action.executor
  canExecute : ∀ state, clean.canExecute state =
    if action.fails meter state then .ok false else action.canExecute state

def PlanningAction.isolated (meter : PlanningStateMeter F) (action : PlanningAction F) : PlanningAction F :=
  { action with validator := fun state => if action.fails meter state then .ok (lit 0) else action.validator state }

theorem isolates_isolated (reflexive : eq (lit 0 : F) (lit 0) = true) (meter : PlanningStateMeter F)
    (action : PlanningAction F) : Isolates meter action (action.isolated meter) := by
  refine ⟨rfl, rfl, ?_⟩
  intro state
  simp only [PlanningAction.canExecute, PlanningAction.isolated]
  split
  · simp [Except.map, reflexive]
  · rfl

variable {meter : PlanningStateMeter F} {clean : PlanningAction F → PlanningAction F}

theorem Isolates.execute {action : PlanningAction F} (isolates : Isolates meter action (clean action))
    (state : State F) : (clean action).execute state = action.execute state := by
  rw [PlanningAction.execute, PlanningAction.execute, isolates.executor]

def PathNodes.cleaned (clean : PlanningAction F → PlanningAction F) (nodes : PathNodes F) : PathNodes F :=
  nodes.map fun node => ⟨clean node.action, node.parent⟩

namespace Path

variable (executes : ∀ action state, (clean action).execute state = action.execute state)

include executes in
theorem executeFromRoot_cleaned (nodes : PathNodes F) (id : Nat) (initialState : State F) (memo : PathMemo F) :
    executeFromRoot (nodes.cleaned clean) id initialState memo = executeFromRoot nodes id initialState memo := by
  induction nodes generalizing id memo with
  | nil => rfl
  | cons node older ih =>
    have size : (PathNodes.cleaned clean older).length = older.length := List.length_map ..
    change executeFromRoot (⟨clean node.action, node.parent⟩ :: PathNodes.cleaned clean older) id initialState memo =
      _
    simp only [executeFromRoot, size, executes, ih]

theorem lineage_cleaned (nodes : PathNodes F) (id : Nat) :
    lineage (nodes.cleaned clean) id = (lineage nodes id).map fun path => (path.1, clean path.2) := by
  induction nodes generalizing id with
  | nil => rfl
  | cons node older ih =>
    have size : (PathNodes.cleaned clean older).length = older.length := List.length_map ..
    change lineage (⟨clean node.action, node.parent⟩ :: PathNodes.cleaned clean older) id = _
    simp only [lineage, size, ih]
    split
    · cases node.parent <;> rfl
    · rfl

theorem getActions_cleaned (clean : PlanningAction F → PlanningAction F) (nodes : PathNodes F) (id : Nat) (actions : List (PlanningAction F)) :
    getActions (nodes.cleaned clean) id (actions.map clean) = (getActions nodes id actions).map clean := by
  simp [getActions_eq, actionsTo, lineage_cleaned, Function.comp_def]

include executes in
theorem getStates_cleaned (nodes : PathNodes F) (id : Nat) (initialState : State F) (states : List (State F))
    (memo : PathMemo F) :
    getStates (nodes.cleaned clean) id initialState states memo = getStates nodes id initialState states memo := by
  unfold getStates
  rw [lineage_cleaned]
  generalize lineage nodes id = paths
  induction paths generalizing states memo with
  | nil => rfl
  | cons path rest ih =>
    simp only [List.map_cons, getStatesLoop, executeFromRoot_cleaned executes, ih]

end Path

def Search.cleaned (clean : PlanningAction F → PlanningAction F) (search : Search F) : Search F :=
  { search with nodes := search.nodes.cleaned clean }

/-- The same outcome of an iteration with other actions. -/
def LoopStatus.cleaned (clean : PlanningAction F → PlanningAction F) : LoopStatus F → LoopStatus F
  | running search => running (search.cleaned clean)
  | exhausted search => exhausted (search.cleaned clean)
  | reachedGoal path search => reachedGoal path (search.cleaned clean)
  | thrown e => thrown e

def PlanResult.cleaned (clean : PlanningAction F → PlanningAction F) (result : PlanResult F) : PlanResult F :=
  { result with
    actionsArray := result.actionsArray.map clean
    search := result.search.cleaned clean }

namespace Planner

def cleaned (planner : Planner F) (clean : PlanningAction F → PlanningAction F) : Planner F :=
  { planner with planningActions := planner.planningActions.map clean, actionStateFunction := none }

variable (planner : Planner F) (isolates : ∀ action, Isolates meter action (clean action)) {initialState : State F}

include isolates

/-- Wherever the body of `gather` is left by an exception, the search is the one of
an action that is not executable, or the child has been queued already. -/
theorem gatherAction_cleaned (path : Option (PathPtr F)) (state : State F) (pathCost min : F) (search : Search F)
    (action : PlanningAction F) :
    gatherAction (planner.cleaned clean) meter path state pathCost min (search.cleaned clean) (clean action) =
      (gatherAction planner meter path state pathCost min search action).cleaned clean := by
  unfold gatherAction gatherBody
  rw [(isolates action).canExecute, (isolates action).execute, PlanningAction.fails]
  cases allowed : action.canExecute state with
  | error e => rfl
  | ok able =>
    cases executed : action.execute state with
    | error e => cases able <;> rfl
    | ok next =>
      cases measured : meter.distance next with
      | error e => cases able <;> simp only [measured, ↓reduceIte]
      | ok distance =>
        cases able with
        | false => simp only [ite_self]
        | true =>
          simp only [measured, Bool.false_eq_true, ↓reduceIte]
          simp only [addPath, Search.cleaned, PathNodes.cleaned, List.map_cons, List.length_map]

theorem gather_cleaned (path : Option (PathPtr F)) (state : State F) (pathCost : F) (search : Search F) :
    gather (planner.cleaned clean) meter path state pathCost (search.cleaned clean) =
      (gather planner meter path state pathCost search).cleaned clean := by
  unfold gather
  change (planner.planningActions.map clean).foldl _
    (Search.cleaned clean { search with gathered := state :: search.gathered }) = _
  generalize planner.planningActions = actions
  generalize ({ search with gathered := state :: search.gathered } : Search F) = before
  change (actions.map clean).foldl
    (gatherAction (planner.cleaned clean) meter path state pathCost search.minDistance) _ = _
  induction actions generalizing before with
  | nil => rfl
  | cons action rest ih =>
    rw [List.map_cons, List.foldl_cons, List.foldl_cons, gatherAction_cleaned planner isolates, ih]

theorem visit_cleaned (path : PathPtr F) (search : Search F) :
    visit (planner.cleaned clean) meter initialState path (search.cleaned clean) =
      (visit planner meter initialState path search).cleaned clean := by
  unfold visit
  have ran := Path.executeFromRoot_cleaned (fun action => (isolates action).execute) search.nodes path.id
    initialState search.memo
  simp only [Search.cleaned, ran]
  generalize Path.executeFromRoot search.nodes path.id initialState search.memo = outcome
  obtain ⟨outcome, memo⟩ := outcome
  cases outcome with
  | error e => rfl
  | ok state =>
    dsimp only
    by_cases seen : search.visitedStates.any (State.keyMatch state) = true
    · rw [if_pos seen]
      exact if_pos seen
    · rw [if_neg seen]
      refine (if_neg seen).trans ?_
      cases meter.enough state with
      | error e => rfl
      | ok answer =>
        cases answer with
        | true => rfl
        | false =>
          have expanded := gather_cleaned planner isolates (some path) state path.cost
            { search with memo, visitedStates := state :: search.visitedStates }
          simp only [Search.cleaned] at expanded
          simp only [LoopStatus.cleaned, expanded, Search.cleaned]

theorem loopStep_cleaned (search : Search F) :
    loopStep (planner.cleaned clean) meter initialState (search.cleaned clean) =
      (loopStep planner meter initialState search).cleaned clean := by
  have same : unvisitedPathes (planner.cleaned clean) = unvisitedPathes planner := rfl
  have pending : (search.cleaned clean).unvisitedPaths = search.unvisitedPaths := rfl
  unfold loopStep
  rw [same, pending]
  generalize PrioritizedQueue.empty PathPtr.cost search.unvisitedPaths = settled
  obtain ⟨finished, unvisitedPaths⟩ := settled
  dsimp only
  split
  · rfl
  · cases PrioritizedQueue.pop planner.unvisitedPathes PathPtr.cost unvisitedPaths with
    | error e => rfl
    | ok popped =>
      obtain ⟨path, unvisitedPaths⟩ := popped
      cases path with
      | none => rfl
      | some path => exact visit_cleaned planner isolates path { search with unvisitedPaths }

theorem reportGoal_cleaned (actionsArray : List (PlanningAction F)) (pStates : Option (List (State F)))
    (path : PathPtr F) (search : Search F) :
    reportGoal initialState (actionsArray.map clean) pStates path (search.cleaned clean) =
      (reportGoal initialState actionsArray pStates path search).map (PlanResult.cleaned clean) := by
  unfold reportGoal
  have actions := Path.getActions_cleaned clean search.nodes path.id actionsArray
  have states := Path.getStates_cleaned (fun action => (isolates action).execute) search.nodes path.id initialState
  simp only [Search.cleaned, actions, states]
  cases pStates with
  | none => rfl
  | some given =>
    dsimp only
    generalize Path.getStates search.nodes path.id initialState given search.memo = outcome
    obtain ⟨outcome, memo⟩ := outcome
    cases outcome <;> rfl

theorem mainLoop_cleaned (actionsArray : List (PlanningAction F)) (pStates : Option (List (State F))) (fuel : Nat)
    (search : Search F) :
    mainLoop (planner.cleaned clean) meter initialState (actionsArray.map clean) pStates fuel
        (search.cleaned clean) =
      (mainLoop planner meter initialState actionsArray pStates fuel search).map
        (Except.map (PlanResult.cleaned clean)) := by
  induction fuel generalizing search with
  | zero => rfl
  | succ fuel ih =>
    rw [mainLoop, mainLoop, loopStep_cleaned planner isolates]
    cases loopStep planner meter initialState search with
    | running next => exact ih next
    | exhausted next => rfl
    | reachedGoal path next => exact congrArg some (reportGoal_cleaned isolates actionsArray pStates path next)
    | thrown e => rfl

/-- The plan and the states are those of the planner in which an action is not
executable where it, its executor or its distance throws, and nobody observes. -/
theorem makePlan_isolated (initialState : State F) (actionsArray : List (PlanningAction F))
    (pStates : Option (List (State F))) (fuel : Nat) :
    makePlan (planner.cleaned clean) meter initialState (actionsArray.map clean) pStates fuel =
      (makePlan planner meter initialState actionsArray pStates fuel).map
        (Except.map (PlanResult.cleaned clean)) := by
  have started : start (planner.cleaned clean) meter initialState =
      (start planner meter initialState).cleaned clean :=
    gather_cleaned planner isolates none initialState (lit 0)
      { nodes := [], memo := fun _ => none, unvisitedPaths := .new, visitedStates := [initialState],
        minDistance := lit 1, analyzedPaths := 0, rejectedPaths := 0, gathered := [] }
  unfold makePlan
  rw [started]
  exact mainLoop_cleaned planner isolates actionsArray pStates fuel _

omit isolates

def stumble : PlanningAction ℚ := ⟨"stumble", fun _ => .ok 1, fun _ => .error "stumbled"⟩

def stumbler : Planner ℚ := ⟨.DepthFirst, [stumble, .raise], some fun _ _ _ => .error "not now"⟩

theorem makePlan_isolated_stumbler :
    makePlan (stumbler.cleaned (PlanningAction.isolated raisedMeter)) raisedMeter .new [] (some []) 1 =
      (makePlan stumbler raisedMeter .new [] (some []) 1).map
        (Except.map (PlanResult.cleaned (PlanningAction.isolated raisedMeter))) ∧
      planNames (makePlan stumbler raisedMeter .new [] (some []) 1) = some ["raise"] := by
  constructor
  · exact makePlan_isolated stumbler (isolates_isolated (by decide +kernel) raisedMeter) .new [] (some []) 1
  · decide +kernel

end Planner

end Goap
