import Goap.AS3.Exhaustive
import Goap.AS3.ExecuteActions
import Goap.AS3.NumericStateComparer

/-! The plan cache of the planner in ActionScript: `findPlan`, `cacheStates` and
`makePlanCached`. Vectors are objects, which the cache shares with its callers. -/

namespace Goap.AS3

open NumberOps

variable {N Other : Type} [ToString Other]

/-- What `statesPlan[length]` throws beyond the end. -/
def rangeError : Error := "Error #1125: The index is out of range."

/-- A `StatesPlan`: the numbers of its two vectors. -/
structure StatesPlan where
  states : Nat
  plan : Nat
deriving DecidableEq, Repr

/-- The vectors by number, the paths with the pools, and `_statesCaches`. States are values:
nobody changes or disposes of a state that the planner was given or has answered with. -/
structure World (N Other : Type) [ToString Other] where
  heap : Heap N Other
  plans : List (List (ActionRef N Other))
  states : List (List (IWriteState N Other))
  _statesCaches : AList fun _ : UInt32 => List StatesPlan

namespace World

def new : World N Other := ⟨⟨[], .new, .new⟩, [], [], ∅⟩

def plan (world : World N Other) (id : Nat) : List (ActionRef N Other) := (world.plans[id]?).getD []

def statesOf (world : World N Other) (id : Nat) : List (IWriteState N Other) := (world.states[id]?).getD []

def setPlan (world : World N Other) (id : Nat) (plan : List (ActionRef N Other)) : World N Other :=
  { world with plans := world.plans.set id plan }

def setStates (world : World N Other) (id : Nat) (states : List (IWriteState N Other)) : World N Other :=
  { world with states := world.states.set id states }

/-- `new Vector.<IPlanningAction>`. -/
def newPlan (world : World N Other) : Nat × World N Other :=
  (world.plans.length, { world with plans := world.plans ++ [[]] })

/-- `new Vector.<IReadState>`. -/
def newStates (world : World N Other) : Nat × World N Other :=
  (world.states.length, { world with states := world.states ++ [[]] })

def withStatePool (world : World N Other) (statePool : ObjectPool (IWriteState N Other)) : World N Other :=
  { world with heap := { world.heap with statePool } }

def plannings (world : World N Other) (hash : UInt32) : List StatesPlan := (world._statesCaches.lookup hash).getD []

@[simp] theorem plan_withStatePool (world : World N Other) (statePool : ObjectPool (IWriteState N Other)) :
    (world.withStatePool statePool).plan = world.plan := rfl

@[simp] theorem statesOf_withStatePool (world : World N Other) (statePool : ObjectPool (IWriteState N Other)) :
    (world.withStatePool statePool).statesOf = world.statesOf := rfl

theorem plan_setPlan_ne {world : World N Other} {id other : Nat} (apart : other ≠ id)
    (plan : List (ActionRef N Other)) : (world.setPlan id plan).plan other = world.plan other := by
  rw [World.plan, World.plan, setPlan, List.getElem?_set_ne (Ne.symm apart)]

theorem plan_setPlan_self {world : World N Other} {id : Nat} (inside : id < world.plans.length)
    (plan : List (ActionRef N Other)) : (world.setPlan id plan).plan id = plan := by
  rw [World.plan, setPlan, List.getElem?_set_self inside]
  rfl

theorem statesOf_setStates_ne {world : World N Other} {id other : Nat} (apart : other ≠ id)
    (states : List (IWriteState N Other)) : (world.setStates id states).statesOf other = world.statesOf other := by
  rw [World.statesOf, World.statesOf, setStates, List.getElem?_set_ne (Ne.symm apart)]

theorem statesOf_setStates_self {world : World N Other} {id : Nat} (inside : id < world.states.length)
    (states : List (IWriteState N Other)) : (world.setStates id states).statesOf id = states := by
  rw [World.statesOf, setStates, List.getElem?_set_self inside]
  rfl

end World

namespace Planner

section

variable [NumberOps N] [Coercions N Other]

structure Near (N : Type) where
  nearDistance : N
  found : Option (StatesPlan × Nat)

/-- `nearDistance <= 0.0`. -/
def Near.close (near : Near N) : Bool := lt near.nearDistance (number 0) || eq near.nearDistance (number 0)

/-- The loop over the states of a plan. -/
def searchStates (initialState : IWriteState N Other) (statePlan : StatesPlan) :
    List (IWriteState N Other) → Nat → Near N → Near N
  | [], _, near => near
  | storedState :: rest, nState, near =>
    let distance := NumericStateComparer.distance storedState initialState
    if lt distance near.nearDistance then
      let near : Near N := ⟨distance, some (statePlan, nState)⟩
      if near.close then near else searchStates initialState statePlan rest (nState + 1) near
    else searchStates initialState statePlan rest (nState + 1) near

/-- The loop over the plans, which leaves out the last state of each. -/
def searchPlans (world : World N Other) (initialState : IWriteState N Other) : List StatesPlan → Near N → Near N
  | [], near => near
  | statePlan :: rest, near =>
    let near := searchStates initialState statePlan (world.statesOf statePlan.states).dropLast 0 near
    if near.close then near else searchPlans world initialState rest near

/-- `findPlan` with its vector, which is there by then. The stored plan may be that vector. -/
def findPlanIn (world : World N Other) (initialState goalState : IWriteState N Other) (retPlan : Nat) :
    Except (Thrown (World N Other)) (World N Other) :=
  let near := searchPlans world initialState (world.plannings goalState.toState.hash.1) ⟨number 1, none⟩
  match near.found with
  | none => .ok world
  | some (nearStatePlan, nearOffset) =>
    let stored := world.plan nearStatePlan.plan
    if stored.length < nearOffset then .error ⟨rangeError, world⟩
    else
      let plan := stored.drop nearOffset
      let (reachedState, statePool) := executeActions plan initialState world.heap.statePool
      let world := (world.setPlan retPlan plan).withStatePool statePool
      if NumericStateComparer.enough reachedState goalState then .ok world else .ok (world.setPlan retPlan [])

def planVector (world : World N Other) : Option Nat → Nat × World N Other
  | some plan => (plan, world.setPlan plan [])
  | none => world.newPlan

def findPlan (world : World N Other) (initialState goalState : IWriteState N Other) (plan : Option Nat) :
    Except (Thrown (World N Other)) (Nat × World N Other) :=
  let (retPlan, world) := planVector world plan
  (findPlanIn world initialState goalState retPlan).map fun world => (retPlan, world)

/-- `cacheStates`, with the goal that ends the vector of states. -/
def cacheStates (world : World N Other) (goalState : IWriteState N Other) (states plan : Nat) : World N Other :=
  let hash := goalState.toState.hash.1
  { world with _statesCaches := world._statesCaches.insert hash (world.plannings hash ++ [⟨states, plan⟩]) }

def stateVector (world : World N Other) : Option Nat → Nat × World N Other
  | some states => (states, world)
  | none => world.newStates

/-- What `makePlanCached` does with a plan that `makePlan` has made: the last state gives way
to the clean goal, the initial state comes first, both vectors go to the cache. -/
def store (world : World N Other) (initialState goalState : IWriteState N Other) (actionsArray states : Nat)
    (actions : List (ActionRef N Other)) (reached : List (IWriteState N Other)) :
    Except (Thrown (World N Other)) (Option Nat × World N Other) :=
  match reached.getLast? with
  | none => .error ⟨rangeError, (world.setPlan actionsArray actions).setStates states reached⟩
  | some last =>
    let goalState : IWriteState N Other := { goalState with cost := last.cost }
    let world := (world.setPlan actionsArray actions).setStates states (initialState :: (reached.dropLast ++ [goalState]))
    .ok (some actionsArray, cacheStates world goalState states actionsArray)

/-- `makePlanCached` after `findPlan` has found nothing. -/
def planAndStore (planner : Planner N Other) (meter : PlanningStateMeter N Other) (world : World N Other)
    (initialState goalState : IWriteState N Other) (actionsArray states : Nat) (fuel : Nat) :
    Option (Except (Thrown (World N Other)) (Option Nat × World N Other)) :=
  (planner.makePlan meter initialState world.heap (some (world.plan actionsArray)) (some (world.statesOf states)) fuel).map
    fun
    | .error thrown =>
      let world := { world with heap := thrown.left.heap }
      .error ⟨thrown.error, (world.setPlan actionsArray (thrown.left.actionsArray.getD [])).setStates states
        (thrown.left.states.getD [])⟩
    | .ok result =>
      let world := { world with heap := result.search.heap }
      match result.actionsArray with
      | none => .ok (none, world)
      | some actions => store world initialState goalState actionsArray states actions (result.states.getD [])

/-- `makePlanCached`: null or the number of the vector with the plan. -/
def makePlanCached (planner : Planner N Other) (meter : PlanningStateMeter N Other) (world : World N Other)
    (initialState : IWriteState N Other) (actionsArray states : Option Nat) (fuel : Nat) :
    Option (Except (Thrown (World N Other)) (Option Nat × World N Other)) :=
  let (goalState, statePool) := meter.goalState.clone world.heap.statePool
  match findPlan (world.withStatePool statePool) initialState goalState actionsArray with
  | .error thrown => some (.error thrown)
  | .ok (actionsArray, world) =>
    if (world.plan actionsArray).isEmpty then
      let (states, world) := stateVector world states
      planAndStore planner meter world initialState goalState actionsArray states fuel
    else some (.ok (some actionsArray, world))

end

theorem plannings_cacheStates (world : World N Other) (goalState : IWriteState N Other) (states plan : Nat)
    (hash : UInt32) : (cacheStates world goalState states plan).plannings hash =
      if hash = goalState.toState.hash.1 then world.plannings hash ++ [⟨states, plan⟩] else world.plannings hash := by
  unfold cacheStates World.plannings
  by_cases same : hash = goalState.toState.hash.1
  · subst same
    simp
  · simp [same, AList.lookup_insert_ne same]

end Planner

end Goap.AS3
