import Goap.Search.Path
import Goap.Search.PrioritizedQueue

namespace Goap

open FloatOps

variable {F : Type} [FloatOps F]

inductive PlanningMethod where
  | BreadthFirst
  | DepthFirst
deriving DecidableEq, Repr

/-- What `makePlan` reads of a `Planner`. The observer sees every action tried,
with the next state when it could be executed, and may throw. -/
structure Planner (F : Type) [FloatOps F] where
  planningMethod : PlanningMethod
  planningActions : List (PlanningAction F)
  actionStateFunction : Option (PlanningAction F → State F → Option (State F) → Except Exn Unit)

/-- A pointer to a path, together with the cost of the path. -/
structure PathPtr (F : Type) where
  id : Nat
  cost : F
deriving DecidableEq

/-- The variables of `makePlan` that live across iterations, with the paths they
point to. `gathered` belongs to the model alone: the states that `gather` has
been run on, the latest first. -/
structure Search (F : Type) [FloatOps F] where
  nodes : PathNodes F
  memo : PathMemo F
  unvisitedPaths : PrioritizedQueue (PathPtr F)
  visitedStates : List (State F)
  minDistance : F
  analyzedPaths : Nat
  rejectedPaths : Nat
  gathered : List (State F)

inductive LoopStatus (F : Type) [FloatOps F] where
  | running (search : Search F)
  | exhausted (search : Search F)
  | reachedGoal (path : PathPtr F) (search : Search F)
  | thrown (e : Exn)

/-- What the caller of `makePlan` holds afterwards, and the last state of the search. -/
structure PlanResult (F : Type) [FloatOps F] where
  actionsArray : List (PlanningAction F)
  pStates : Option (List (State F))
  bReachedGoal : Bool
  search : Search F

namespace Planner

variable (planner : Planner F) (meter : PlanningStateMeter F)

/-- `unvisitedPathes()`: the container that the planning method asks for. -/
def unvisitedPathes : Prioritized :=
  match planner.planningMethod with
  | .BreadthFirst => .PrioritizedQueue
  | .DepthFirst => .PrioritizedStack

/-- `newPath` and `pushLazy`: a child of `path` joins the pending paths. -/
def addPath (search : Search F) (path : Option (PathPtr F)) (action : PlanningAction F) (cost : F) :
    Search F :=
  { search with
    nodes := ⟨action, path.map PathPtr.id⟩ :: search.nodes
    unvisitedPaths := search.unvisitedPaths.pushLazy ⟨search.nodes.length, cost⟩ }

/-- The cost of a child path and the least distance after it. The distance is
compared with `min`, the least distance before the expansion. -/
def pathCosts (pathCost min minDistance distance stateCost : F) : F × F :=
  if meter.monotonic && lt distance min then
    (pathCost + (lit 4 * (distance * stateCost) - pathCost - lit 10), distance)
  else (pathCost + distance * stateCost, minDistance)

/-- The body of the `try` block of `gather` for one action: the search after it
and the exception it may leave by. -/
def gatherBody (path : Option (PathPtr F)) (stateReachedByPath : State F) (pathCost min : F)
    (search : Search F) (action : PlanningAction F) : Search F × Except Exn Unit :=
  let observe (nextState : Option (State F)) : Except Exn Unit :=
    match planner.actionStateFunction with
    | none => .ok ()
    | some observer => observer action stateReachedByPath nextState
  match action.canExecute stateReachedByPath with
  | .error e => (search, .error e)
  | .ok false => (search, observe none)
  | .ok true =>
    match action.execute stateReachedByPath with
    | .error e => (search, .error e)
    | .ok nextState =>
      match meter.distance nextState with
      | .error e => (search, .error e)
      | .ok distance =>
        let (cost, minDistance) := pathCosts meter pathCost min search.minDistance distance nextState.cost
        (addPath { search with minDistance } path action cost, observe (some nextState))

/-- One action of `gather`, whose exceptions are logged and dropped. -/
def gatherAction (path : Option (PathPtr F)) (stateReachedByPath : State F) (pathCost min : F)
    (search : Search F) (action : PlanningAction F) : Search F :=
  (gatherBody planner meter path stateReachedByPath pathCost min search action).1

/-- `gather`: a pending path for every action that the reached state allows. -/
def gather (path : Option (PathPtr F)) (stateReachedByPath : State F) (pathCost : F)
    (search : Search F) : Search F :=
  planner.planningActions.foldl (gatherAction planner meter path stateReachedByPath pathCost search.minDistance)
    { search with gathered := stateReachedByPath :: search.gathered }

/-- The search before the main loop: the initial state is visited and expanded. -/
def start (initialState : State F) : Search F :=
  gather planner meter none initialState (lit 0)
    { nodes := []
      memo := fun _ => none
      unvisitedPaths := .new
      visitedStates := [initialState]
      minDistance := lit 1
      analyzedPaths := 0
      rejectedPaths := 0
      gathered := [] }

/-- The main loop after a path has been popped. -/
def visit (initialState : State F) (path : PathPtr F) (search : Search F) : LoopStatus F :=
  match Path.executeFromRoot search.nodes path.id initialState search.memo with
  | (.error e, _) => .thrown e
  | (.ok stateReachedByPath, memo) =>
    let search := { search with memo }
    if search.visitedStates.any (State.keyMatch stateReachedByPath) then
      .running { search with rejectedPaths := search.rejectedPaths + 1 }
    else
      match meter.enough stateReachedByPath with
      | .error e => .thrown e
      | .ok true => .reachedGoal path search
      | .ok false =>
        let search := gather planner meter (some path) stateReachedByPath path.cost
          { search with visitedStates := stateReachedByPath :: search.visitedStates }
        .running { search with analyzedPaths := search.analyzedPaths + 1 }

/-- One iteration of the main loop, its condition first. -/
def loopStep (initialState : State F) (search : Search F) : LoopStatus F :=
  let (finished, unvisitedPaths) := PrioritizedQueue.empty PathPtr.cost search.unvisitedPaths
  if finished then .exhausted { search with unvisitedPaths }
  else
    match PrioritizedQueue.pop planner.unvisitedPathes PathPtr.cost unvisitedPaths with
    | .error e => .thrown e
    | .ok (none, _) => .thrown "null path"
    | .ok (some path, unvisitedPaths) => visit planner meter initialState path { search with unvisitedPaths }

/-- What `makePlan` writes when the loop ends at a goal. -/
def reportGoal (initialState : State F) (actionsArray : List (PlanningAction F))
    (pStates : Option (List (State F))) (path : PathPtr F) (search : Search F) : Except Exn (PlanResult F) :=
  let actionsArray := Path.getActions search.nodes path.id actionsArray
  match pStates with
  | none => .ok ⟨actionsArray, none, true, search⟩
  | some states =>
    match Path.getStates search.nodes path.id initialState states search.memo with
    | (.error e, _) => .error e
    | (.ok states, memo) => .ok ⟨actionsArray, some states, true, { search with memo }⟩

/-- The main loop and what follows it; `none` when the fuel runs out. -/
def mainLoop (initialState : State F) (actionsArray : List (PlanningAction F))
    (pStates : Option (List (State F))) : Nat → Search F → Option (Except Exn (PlanResult F))
  | 0, _ => none
  | fuel + 1, search =>
    match loopStep planner meter initialState search with
    | .running search => mainLoop initialState actionsArray pStates fuel search
    | .exhausted search => some (.ok ⟨[], pStates, false, search⟩)
    | .reachedGoal path search => some (reportGoal initialState actionsArray pStates path search)
    | .thrown e => some (.error e)

def makePlan (initialState : State F) (actionsArray : List (PlanningAction F))
    (pStates : Option (List (State F))) (fuel : Nat) : Option (Except Exn (PlanResult F)) :=
  mainLoop planner meter initialState actionsArray pStates fuel (start planner meter initialState)

inductive Explored (initialState : State F) : Search F → Prop where
  | start : Explored initialState (start planner meter initialState)
  | step (before : Explored initialState search)
      (ran : loopStep planner meter initialState search = .running search') : Explored initialState search'

variable {planner meter} {initialState : State F} {search : Search F}

/-- A finished loop comes from an explored search whose next iteration ends it. -/
theorem mainLoop_cases {actionsArray : List (PlanningAction F)} {pStates : Option (List (State F))}
    {fuel : Nat} {result : PlanResult F} (explored : Explored planner meter initialState search)
    (ran : mainLoop planner meter initialState actionsArray pStates fuel search = some (.ok result)) :
    ∃ last, Explored planner meter initialState last ∧
      ((∃ search', loopStep planner meter initialState last = .exhausted search' ∧
          result = ⟨[], pStates, false, search'⟩) ∨
        ∃ path search', loopStep planner meter initialState last = .reachedGoal path search' ∧
          reportGoal initialState actionsArray pStates path search' = .ok result) := by
  induction fuel generalizing search with
  | zero => cases ran
  | succ fuel ih =>
    rw [mainLoop] at ran
    cases status : loopStep planner meter initialState search with
    | running search' =>
      rw [status] at ran
      exact ih (explored.step status) ran
    | exhausted search' =>
      rw [status] at ran
      exact ⟨search, explored, .inl ⟨search', status, (Except.ok.inj (Option.some.inj ran)).symm⟩⟩
    | reachedGoal path search' =>
      rw [status] at ran
      exact ⟨search, explored, .inr ⟨path, search', status, Option.some.inj ran⟩⟩
    | thrown e =>
      rw [status] at ran
      cases ran

end Planner

end Goap
