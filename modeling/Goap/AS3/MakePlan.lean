import Goap.AS3.Path
import Goap.AS3.PrioritizedQueue

namespace Goap.AS3

open NumberOps

inductive PlanningMethod where
  | BreadthFirst
  | DepthFirst
deriving DecidableEq, Repr

structure Planner (N Other : Type) [ToString Other] where
  _planningMethod : PlanningMethod
  _planningActions : List (ActionRef N Other)

/-- The variables of `makePlan` that live across iterations. `expanded` belongs to the model
alone: the states that `gather` has been run on, the latest first. -/
structure Search (N Other : Type) [ToString Other] where
  heap : Heap N Other
  unvisitedPathes : PrioritizedQueue Nat
  visitedStates : StatesDictionary (IWriteState N Other)
  minDistance : N
  analyzedPaths : Int32
  rejectedPaths : Int32
  expanded : List (IWriteState N Other)

inductive LoopStatus (N Other : Type) [ToString Other] where
  | running (search : Search N Other)
  | exhausted (search : Search N Other)
  | reachedGoal (path : Nat) (search : Search N Other)
  | thrown (e : Error) (search : Search N Other)

/-- What the caller holds afterwards, where null is `none`, and the last state of the search. -/
structure PlanResult (N Other : Type) [ToString Other] where
  actionsArray : Option (List (ActionRef N Other))
  states : Option (List (IWriteState N Other))
  search : Search N Other

/-- What a call leaves that throws: the caller's arrays, the paths and the pools. -/
structure PlanLeft (N Other : Type) [ToString Other] where
  actionsArray : Option (List (ActionRef N Other))
  states : Option (List (IWriteState N Other))
  heap : Heap N Other

namespace Planner

variable {N Other : Type} [NumberOps N] [ToString Other] (planner : Planner N Other)
  (meter : PlanningStateMeter N Other)

/-- The getter `unvisitedPathes`: the class that the planning method asks for. -/
def unvisitedPathes : Prioritized :=
  match planner._planningMethod with
  | .BreadthFirst => .PrioritizedQueue
  | .DepthFirst => .PrioritizedStack

/-- The cost of a child path, with the distance that becomes the least one, if it does. The
distance is compared with `min`, the least distance before the expansion. -/
def pathCosts (pathCost min distance stateCost : N) : N × Option N :=
  if meter.monotonic && lt distance min then
    (pathCost + (number 4 * (distance * stateCost) - pathCost - number 10), some distance)
  else (pathCost + distance * stateCost, none)

/-- The variables of `gather`: the search and the last path that was made. -/
structure Gather (N Other : Type) [ToString Other] where
  search : Search N Other
  plan : Option Nat

/-- A child of `path` joins the lazy paths, its state goes back to the pool. -/
def addPath (search : Search N Other) (action : ActionRef N Other) (path : Option Nat) (costs : N × Option N)
    (nextState : IWriteState N Other) : Gather N Other :=
  let (plan, heap) := Path.getNew search.heap action path costs.1
  { search := { search with
      heap := { heap with statePool := heap.statePool.dispose nextState }
      unvisitedPathes := search.unvisitedPathes.pushLazy plan
      minDistance := costs.2.getD search.minDistance }
    plan := some plan }

/-- The `try` block of `gather` for one action. What an exception leaves behind is a state
that does not go back to the pool. -/
def gatherAction (path : Option Nat) (reachedByPath : IWriteState N Other) (pathCost min : N)
    (gather : Gather N Other) (action : ActionRef N Other) : Gather N Other :=
  match action.canExecute reachedByPath with
  | .error _ => gather
  | .ok false => gather
  | .ok true =>
    let (nextState, statePool) := action.execute reachedByPath gather.search.heap.statePool
    let search := { gather.search with heap := { gather.search.heap with statePool } }
    match nextState with
    | .error _ => { gather with search }
    | .ok nextState =>
      match meter.distance nextState with
      | .error _ => { gather with search }
      | .ok distance => addPath search action path (pathCosts meter pathCost min distance nextState.cost) nextState

/-- `gather`; a path that has no children is given back. -/
def gather (path : Option Nat) (reachedByPath : IWriteState N Other) (pathCost : N) (search : Search N Other) :
    Search N Other :=
  let gathered := planner._planningActions.foldl (gatherAction meter path reachedByPath pathCost search.minDistance)
    { search := { search with expanded := reachedByPath :: search.expanded }, plan := none }
  match gathered.plan, path with
  | none, some path => { gathered.search with heap := Path.dispose gathered.search.heap path }
  | _, _ => gathered.search

/-- The search before the main loop: the initial state is visited and expanded. Asking
whether there are any paths lets the lazy ones in. -/
def start (initialState : IWriteState N Other) (heap : Heap N Other) : Search N Other :=
  let search := gather planner meter none initialState (number 0)
    { heap
      unvisitedPathes := .new
      visitedStates := StatesDictionary.new.setAt initialState.toState initialState
      minDistance := number 1
      analyzedPaths := 0
      rejectedPaths := 0
      expanded := [] }
  { search with unvisitedPathes := (PrioritizedQueue.isEmpty (Path.cost search.heap) search.unvisitedPathes).2 }

/-- The main loop after a path has been popped. -/
def visit (initialState : IWriteState N Other) (path : Nat) (search : Search N Other) : LoopStatus N Other :=
  match Path.executeFromRoot search.heap path initialState with
  | (.error e, heap) => .thrown e { search with heap }
  | (.ok reachedByPath, heap) =>
    match search.visitedStates.at? reachedByPath.toState with
    | some _ => .running { search with heap := Path.dispose heap path, rejectedPaths := search.rejectedPaths + 1 }
    | none =>
      match meter.enough reachedByPath with
      | .error e => .thrown e { search with heap }
      | .ok true => .reachedGoal path { search with heap }
      | .ok false =>
        let search := gather planner meter (some path) reachedByPath (Path.cost heap path)
          { search with
            heap
            visitedStates := search.visitedStates.setAt reachedByPath.toState reachedByPath }
        .running { search with analyzedPaths := search.analyzedPaths + 1 }

/-- One iteration of the main loop, its condition first. -/
def loopStep (initialState : IWriteState N Other) (search : Search N Other) : LoopStatus N Other :=
  let (finished, unvisitedPathes) := PrioritizedQueue.isEmpty (Path.cost search.heap) search.unvisitedPathes
  if finished then .exhausted { search with unvisitedPathes }
  else
    match PrioritizedQueue.pop planner.unvisitedPathes (Path.cost search.heap) unvisitedPathes with
    | .error e => .thrown e { search with unvisitedPathes }
    | .ok (none, unvisitedPathes) => .thrown nullReference { search with unvisitedPathes }
    | .ok (some path, unvisitedPathes) => visit planner meter initialState path { search with unvisitedPathes }

/-- What `makePlan` writes when the loop ends at a goal. -/
def reportGoal (initialState : IWriteState N Other) (actionsArray : Option (List (ActionRef N Other)))
    (states : Option (List (IWriteState N Other))) (path : Nat) (search : Search N Other) :
    Except (Thrown (PlanLeft N Other)) (PlanResult N Other) :=
  let actionsArray := Path.getActions search.heap path (actionsArray.getD [])
  match states with
  | none => .ok ⟨some actionsArray, none, { search with heap := Path.dispose search.heap path }⟩
  | some states =>
    match Path.getStates search.heap path initialState states with
    | (.error thrown, heap) => .error ⟨thrown.error, some actionsArray, some thrown.left, heap⟩
    | (.ok states, heap) => .ok ⟨some actionsArray, some states, { search with heap := Path.dispose heap path }⟩

/-- The main loop and what follows it; `none` when the fuel runs out. -/
def mainLoop (initialState : IWriteState N Other) (actionsArray : Option (List (ActionRef N Other)))
    (states : Option (List (IWriteState N Other))) :
    Nat → Search N Other → Option (Except (Thrown (PlanLeft N Other)) (PlanResult N Other))
  | 0, _ => none
  | fuel + 1, search =>
    match loopStep planner meter initialState search with
    | .running search => mainLoop initialState actionsArray states fuel search
    | .exhausted search => some (.ok ⟨none, states, search⟩)
    | .reachedGoal path search => some (reportGoal initialState actionsArray states path search)
    | .thrown e search => some (.error ⟨e, actionsArray, states, search.heap⟩)

/-- `makePlan`, with the paths and the pools as earlier calls have left them. -/
def makePlan (initialState : IWriteState N Other) (heap : Heap N Other)
    (actionsArray : Option (List (ActionRef N Other))) (states : Option (List (IWriteState N Other))) (fuel : Nat) :
    Option (Except (Thrown (PlanLeft N Other)) (PlanResult N Other)) :=
  mainLoop planner meter initialState actionsArray states fuel (start planner meter initialState heap)

inductive Explored (initialState : IWriteState N Other) (heap : Heap N Other) : Search N Other → Prop where
  | start : Explored initialState heap (start planner meter initialState heap)
  | step {search search' : Search N Other} (before : Explored initialState heap search)
      (ran : loopStep planner meter initialState search = .running search') : Explored initialState heap search'

end Planner

end Goap.AS3
