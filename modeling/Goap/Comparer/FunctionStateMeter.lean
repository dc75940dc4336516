import Goap.Comparer.NumericStateComparer
import Goap.Foundation.Run

namespace Goap

open FloatOps Foundation

variable {F : Type} [FloatOps F]

namespace ExactStateComparer

/-- The number of unequal values and the number of common keys, after one more
entry of `state2`. -/
def compareEntry (state1 : State F) (acc : F × Nat) (entry : StateValue F × StateValue F) : F × Nat :=
  match state1.find? entry.1 with
  | none => acc
  | some value1 => (if value1.equals entry.2 then acc.1 else acc.1 + lit 1, acc.2 + 1)

def distance (state1 state2 : State F) : F :=
  let s2Count : Int := state2.size
  let (percent, sameKeyCount) := state2.data.foldl (compareEntry state1) (lit 0, 0)
  let countDifferent : F := lit (s2Count + state1.size - sameKeyCount - sameKeyCount : Int)
  (percent + countDifferent) / (lit sameKeyCount + countDifferent)

end ExactStateComparer

/-- `ComparerStateMeter` with the exact comparer, whose goal test is the numeric
one, as a function meter sets it up. -/
def exactComparerStateMeter (goalState : State F) : PlanningStateMeter F where
  goalState
  monotonic := true
  distance state := .ok (ExactStateComparer.distance state goalState)
  enough state := .ok (NumericStateComparer.enough state goalState)

/-- What the two functions see of their meter. The built-in meters come and go with
the goal. -/
structure MeterView (F : Type) [FloatOps F] where
  goalState : Option (State F)
  isMonotonic : Bool
  numericStateMeter : Option (PlanningStateMeter F)
  exactStateMeter : Option (PlanningStateMeter F)
  numeric_eq : numericStateMeter = goalState.map comparerStateMeter
  exact_eq : exactStateMeter = goalState.map exactComparerStateMeter

/-- `distance_function_type`; `none` where the function dereferences a null pointer. -/
abbrev DistanceFunction (F : Type) [FloatOps F] := State F → MeterView F → Option (Except Exn F)

abbrev EnoughFunction (F : Type) [FloatOps F] := State F → MeterView F → Option (Except Exn Bool)

/-- `FunctionStateMeter`; an empty `std::function` is `none`. -/
structure FunctionStateMeter (F : Type) [FloatOps F] where
  view : MeterView F
  fnDistance : Option (DistanceFunction F)
  fnEnough : Option (EnoughFunction F)
  stateMeters : List (StateValue F × Option (PlanningStateMeter F))

inductive MeterCall (F : Type) [FloatOps F] where
  | goalState
  | setGoalState (goalState : State F)
  | monotonic
  | setMonotonic (monotonic : Bool)
  | distance (state : State F)
  | enough (state : State F)
  | addStateMeter (name : StateValue F) (stateMeter : Option (PlanningStateMeter F))
  | getStateMeter (name : StateValue F)
  | fnDistance
  | setFnDistance (value : Option (DistanceFunction F))
  | fnEnough
  | setFnEnough (value : Option (EnoughFunction F))
  | numericStateMeter
  | exactStateMeter
  | clear

inductive MeterAnswer (F : Type) [FloatOps F] where
  | done
  | goalState (goalState : Option (State F))
  | monotonic (monotonic : Bool)
  | distance (outcome : Except Exn F)
  | enough (outcome : Except Exn Bool)
  | meter (stateMeter : Option (PlanningStateMeter F))
  | fnDistance (value : Option (DistanceFunction F))
  | fnEnough (value : Option (EnoughFunction F))

def MeterView.empty : MeterView F := ⟨none, false, none, none, rfl, rfl⟩

def MeterView.setGoalState (view : MeterView F) (goalState : State F) : MeterView F :=
  { view with
    goalState := some goalState
    numericStateMeter := some (comparerStateMeter goalState)
    exactStateMeter := some (exactComparerStateMeter goalState)
    numeric_eq := rfl
    exact_eq := rfl }

namespace FunctionStateMeter

/-- The distance function of a new meter asks its numeric meter. -/
def defaultDistance : DistanceFunction F := fun state stateMeter =>
  stateMeter.numericStateMeter.map fun numericStateMeter => numericStateMeter.distance state

/-- The goal test of a new meter asks its numeric meter. -/
def defaultEnough : EnoughFunction F := fun state stateMeter =>
  stateMeter.numericStateMeter.map fun numericStateMeter => numericStateMeter.enough state

/-- `FunctionStateMeter()`. -/
def new : FunctionStateMeter F := ⟨.empty, some defaultDistance, some defaultEnough, []⟩

/-- `clear()` resets everything but the two functions. -/
def clear (this : FunctionStateMeter F) : FunctionStateMeter F := { this with view := .empty, stateMeters := [] }

def addStateMeter (this : FunctionStateMeter F) (name : StateValue F) (stateMeter : Option (PlanningStateMeter F)) :
    FunctionStateMeter F :=
  { this with stateMeters := HashedList.insert StateValue.keyMatch name stateMeter this.stateMeters }

/-- `getStateMeter`: a missing name is entered with a null meter. -/
def getStateMeter (this : FunctionStateMeter F) (name : StateValue F) :
    Option (PlanningStateMeter F) × FunctionStateMeter F :=
  match HashedList.lookup StateValue.keyMatch name this.stateMeters with
  | some stateMeter => (stateMeter, this)
  | none => (none, this.addStateMeter name none)

/-- `goalState(goalState_)`. -/
def setGoalState (this : FunctionStateMeter F) (goalState : State F) : FunctionStateMeter F :=
  let this := { this with view := this.view.setGoalState goalState }
  let this := this.addStateMeter (.ofString "numeric") (some (comparerStateMeter goalState))
  this.addStateMeter (.ofString "exact") (some (exactComparerStateMeter goalState))

/-- `distance(state)`; an empty function throws. -/
def distance (this : FunctionStateMeter F) (state : State F) : Option (Except Exn F) :=
  match this.fnDistance with
  | none => some (.error "bad_function_call")
  | some fnDistance => fnDistance state this.view

/-- `enough(state)`. -/
def enough (this : FunctionStateMeter F) (state : State F) : Option (Except Exn Bool) :=
  match this.fnEnough with
  | none => some (.error "bad_function_call")
  | some fnEnough => fnEnough state this.view

/-- One call; `none` where a null meter is dereferenced. -/
def step (this : FunctionStateMeter F) : MeterCall F → Option (MeterAnswer F × FunctionStateMeter F)
  | .goalState => some (.goalState this.view.goalState, this)
  | .setGoalState goalState => some (.done, this.setGoalState goalState)
  | .monotonic => some (.monotonic this.view.isMonotonic, this)
  | .setMonotonic isMonotonic => some (.done, { this with view := { this.view with isMonotonic } })
  | .distance state => (this.distance state).map fun outcome => (.distance outcome, this)
  | .enough state => (this.enough state).map fun outcome => (.enough outcome, this)
  | .addStateMeter name stateMeter => some (.done, this.addStateMeter name stateMeter)
  | .getStateMeter name => some (.meter (this.getStateMeter name).1, (this.getStateMeter name).2)
  | .fnDistance => some (.fnDistance this.fnDistance, this)
  | .setFnDistance fnDistance => some (.done, { this with fnDistance })
  | .fnEnough => some (.fnEnough this.fnEnough, this)
  | .setFnEnough fnEnough => some (.done, { this with fnEnough })
  | .numericStateMeter => some (.meter this.view.numericStateMeter, this)
  | .exactStateMeter => some (.meter this.view.exactStateMeter, this)
  | .clear => some (.done, this.clear)

/-- Both functions are those of a new meter. -/
def HasDefaults (this : FunctionStateMeter F) : Prop :=
  this.fnDistance = some defaultDistance ∧ this.fnEnough = some defaultEnough

theorem clear_eq_new_iff {this : FunctionStateMeter F} : this.clear = new ↔ this.HasDefaults := by
  simp [clear, new, HasDefaults]

theorem distance_of_hasDefaults {this : FunctionStateMeter F} (defaults : this.HasDefaults) {goalState : State F}
    (goal : this.view.goalState = some goalState) (state : State F) :
    this.distance state = some ((comparerStateMeter goalState).distance state) ∧
      this.enough state = some ((comparerStateMeter goalState).enough state) := by
  rw [distance, enough, defaults.1, defaults.2]
  simp [defaultDistance, defaultEnough, this.view.numeric_eq, goal]

end FunctionStateMeter

end Goap
