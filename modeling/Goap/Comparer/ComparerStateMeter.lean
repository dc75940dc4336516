import Goap.Comparer.FunctionStateMeter
import Goap.Comparer.LevensteinDistance
import Goap.Factory.LibInscribe

namespace Goap

open FloatOps

variable {F : Type} [FloatOps F] {Value : Type}

/-- An object that implements `IPlanningStateComparer`, by its class. -/
inductive PlanningStateComparer where
  | numeric
  | levenstein
  | exact
deriving DecidableEq

namespace PlanningStateComparer

def distance (comparer : PlanningStateComparer) (stateSrc stateDst : State F) : F :=
  match comparer with
  | .numeric => NumericStateComparer.distance stateSrc stateDst
  | .levenstein => LevensteinStateComparer.distance stateSrc stateDst
  | .exact => ExactStateComparer.distance stateSrc stateDst

/-- The other two classes inherit `enough` from the numeric comparer. -/
def enough (_ : PlanningStateComparer) (stateSrc stateDst : State F) : Bool :=
  NumericStateComparer.enough stateSrc stateDst

/-- The comparer that a factory has made. -/
def ofMade (object : Made LibDelegate Value) : Option PlanningStateComparer :=
  match object.delegate with
  | .defaultDelegate .numericStateComparer => some .numeric
  | .defaultDelegate .levensteinStateComparer => some .levenstein
  | .defaultDelegate .exactStateComparer => some .exact
  | _ => none

/-- `NewPtr<Interface>(discr)` where the interface is that of a comparer. -/
def newPtr (factories : LibFactories Value) (interface : LibClass) (discr : String) :
    Option PlanningStateComparer × LibFactories Value :=
  let (object, factories) := factories.newPtr interface discr
  (object.bind ofMade, factories)

end PlanningStateComparer

def NumericStateComparer.singleton (factories : LibFactories Value) : Option PlanningStateComparer × LibFactories Value :=
  PlanningStateComparer.newPtr factories .numericStateComparer STR_GOAP_NUMERICSTATECOMPARER_SINGLETON

/-- `ComparerStateMeter`; `none` is a null pointer. -/
structure ComparerStateMeter (F : Type) [FloatOps F] where
  goalState : Option (State F)
  isMonotonic : Bool
  comparer : Option PlanningStateComparer

namespace ComparerStateMeter

def new : ComparerStateMeter F := ⟨none, false, none⟩

def setGoalState (this : ComparerStateMeter F) (goalState : State F) : ComparerStateMeter F :=
  { this with goalState := some goalState }

/-- `comparer(stateComparer)`: without a comparer, that of `singleton`. -/
def setComparer (this : ComparerStateMeter F) (factories : LibFactories Value)
    (stateComparer : Option PlanningStateComparer) : ComparerStateMeter F × LibFactories Value :=
  match stateComparer with
  | some comparer => ({ this with comparer := some comparer }, factories)
  | none =>
    let (comparer, factories) := NumericStateComparer.singleton factories
    ({ this with comparer }, factories)

/-- `distance`; `none` where a null pointer is dereferenced. -/
def distance (this : ComparerStateMeter F) (state : State F) : Option F := do
  let comparer ← this.comparer
  let goalState ← this.goalState
  return comparer.distance state goalState

/-- `enough`, as `distance`. -/
def enough (this : ComparerStateMeter F) (state : State F) : Option Bool := do
  let comparer ← this.comparer
  let goalState ← this.goalState
  return comparer.enough state goalState

end ComparerStateMeter

def newComparerStateMeter (factories : LibFactories Value) (goalState : State F)
    (stateComparer : Option PlanningStateComparer) : ComparerStateMeter F × LibFactories Value :=
  (ComparerStateMeter.new.setGoalState goalState).setComparer factories stateComparer

/-- The meter without a comparer dereferences no null comparer, and answers as the one
with the numeric comparer. -/
def UsesNumeric (factories : LibFactories Value) (goalState state : State F) : Prop :=
  let meter := (newComparerStateMeter factories goalState none).1
  let numericMeter := (newComparerStateMeter factories goalState (some .numeric)).1
  meter.comparer ≠ none ∧ meter.distance state = numericMeter.distance state ∧
    meter.enough state = numericMeter.enough state

theorem newComparerStateMeter_numeric (factories : LibFactories Value) (goalState state : State F) :
    let meter := (newComparerStateMeter factories goalState (some .numeric)).1
    (comparerStateMeter goalState).distance state = .ok (NumericStateComparer.distance state goalState) ∧
      meter.distance state = some (NumericStateComparer.distance state goalState) ∧
      meter.enough state = some (NumericStateComparer.enough state goalState) :=
  ⟨rfl, rfl, rfl⟩

theorem newPtr_iPlanningStateComparer : (PlanningStateComparer.newPtr
    ((LibFactories.new : LibFactories Unit).goapLibInscribe "") .iPlanningStateComparer
      STR_GOAP_NUMERICSTATECOMPARER_SINGLETON).1 = some .numeric := by
  decide +kernel

theorem singleton_eq_none (discrs : List String) :
    (NumericStateComparer.singleton ((LibFactories.new : LibFactories Value).goapLibInscribeAll discrs)).1 = none := by
  have absent : ∀ entry ∈ inscriptions, LibType.class_ entry.interface ≠ .class_ .numericStateComparer := by
    decide +kernel
  have nothing := LibFactories.map_goapLibInscribeAll
    ⟨0, .class_ .numericStateComparer, STR_GOAP_NUMERICSTATECOMPARER_SINGLETON, []⟩ absent
    (LibFactories.new : LibFactories Value) discrs
  rw [NumericStateComparer.singleton, PlanningStateComparer.newPtr, LibFactories.newPtr, Factories.create, nothing]
  rfl

theorem usesNumeric_of_inscribed {factories : LibFactories Value} {class_ : LibType}
    (inscribed : factories.map ⟨0, .class_ .numericStateComparer, STR_GOAP_NUMERICSTATECOMPARER_SINGLETON, []⟩ =
      some ⟨class_, .default, .defaultDelegate .numericStateComparer⟩) (goalState state : State F) :
    UsesNumeric factories goalState state := by
  have found : (NumericStateComparer.singleton factories).1 = some .numeric := by
    rw [NumericStateComparer.singleton, PlanningStateComparer.newPtr, LibFactories.newPtr,
      Factories.create_of_map inscribed, Factories.getInstance_default rfl]
    rfl
  have same : (newComparerStateMeter factories goalState none).1 =
      (newComparerStateMeter factories goalState (some .numeric)).1 :=
    congrArg (fun comparer => (⟨some goalState, false, comparer⟩ : ComparerStateMeter F)) found
  rw [UsesNumeric, same]
  exact ⟨nofun, rfl, rfl⟩

theorem newComparerStateMeter_none (discrs : List String) (goalState state : State F) :
    let meter := (newComparerStateMeter ((LibFactories.new : LibFactories Value).goapLibInscribeAll discrs) goalState
      none).1
    meter.comparer = none ∧ meter.distance state = none ∧ meter.enough state = none := by
  have same : (newComparerStateMeter ((LibFactories.new : LibFactories Value).goapLibInscribeAll discrs) goalState
      none).1 = ⟨some goalState, false, none⟩ :=
    congrArg (fun comparer => (⟨some goalState, false, comparer⟩ : ComparerStateMeter F)) (singleton_eq_none discrs)
  rw [same]
  exact ⟨rfl, rfl, rfl⟩

/-- After `goapLibInscribe`, the meter without a comparer never is one with the numeric
comparer: neither its distance nor its goal test is the same. -/
theorem not_usesNumeric (discrs : List String) (goalState state : State F) :
    let factories := (LibFactories.new : LibFactories Value).goapLibInscribeAll discrs
    let meter := (newComparerStateMeter factories goalState none).1
    let numericMeter := (newComparerStateMeter factories goalState (some .numeric)).1
    ¬ UsesNumeric factories goalState state ∧ meter.distance state ≠ numericMeter.distance state ∧
      meter.enough state ≠ numericMeter.enough state := by
  intro factories meter numericMeter
  obtain ⟨null, distance, enough⟩ : meter.comparer = none ∧ meter.distance state = none ∧ meter.enough state = none :=
    newComparerStateMeter_none discrs goalState state
  refine ⟨fun uses => uses.1 null, ?_, ?_⟩
  · rw [distance]
    exact nofun
  · rw [enough]
    exact nofun

/-- Two new states. -/
theorem usesNumeric_fails : ¬ ∀ (discr : String) (goalState state : State ℚ),
    UsesNumeric ((LibFactories.new : LibFactories Unit).goapLibInscribeAll [discr]) goalState state := by
  intro all
  exact (all "" .new .new).1 (newComparerStateMeter_none [""] State.new State.new).1

end Goap
