import Goap.Comparer.NumericStateComparer
import Goap.Search.ExecuteActions
import Goap.Search.MakePlan

/-! The plan cache of a `Planner`: plans stored under their goal, and
`makePlanCached`, which looks there first. -/

namespace Goap

open FloatOps Foundation

variable {F : Type} [FloatOps F]

/-- `StatesPlan`: a plan and the states it goes through, from the initial state to the goal. -/
structure StatesPlan (F : Type) [FloatOps F] where
  states : List (State F)
  plan : List (PlanningAction F)

/-- A key of `_statesCaches`. The container keeps the hash that the state had when
it was inserted, and that hash only, whatever becomes of the state later. -/
structure CacheKey (F : Type) [FloatOps F] where
  hashCode : UInt64
  state : State F

namespace CacheKey

def of (state : State F) : CacheKey F := ⟨state.hash, state⟩

/-- How the container probes a stored key. -/
def fits (probe stored : CacheKey F) : Bool :=
  probe.hashCode == stored.hashCode && probe.state.equals stored.state

end CacheKey

abbrev StatesCaches (F : Type) [FloatOps F] := List (CacheKey F × List (StatesPlan F))

/-- `_statesCaches[goalState]`: the plans under a goal; a goal that is not found is
inserted with no plan. -/
def StatesCaches.subscript (statesCaches : StatesCaches F) (goalState : State F) :
    List (StatesPlan F) × StatesCaches F :=
  match HashedList.lookup CacheKey.fits (.of goalState) statesCaches with
  | some plannings => (plannings, statesCaches)
  | none => ([], HashedList.insert CacheKey.fits (.of goalState) [] statesCaches)

structure Nearest (F : Type) [FloatOps F] where
  nearDistance : F
  nearStatePlan : Option (StatesPlan F × Nat)

namespace Nearest

/-- Before any stored state is looked at. -/
def new : Nearest F := ⟨lit 1, none⟩

/-- The inner loop of `findPlan`, over the states of one plan. It goes on only from
the last of them. -/
def scanStates (intialState : State F) (statePlan : StatesPlan F) (nStates : Nat) :
    Nat → List (State F) → Nearest F → Nearest F
  | _, [], nearest => nearest
  | nState, storedState :: rest, nearest =>
    let distance := NumericStateComparer.distance storedState intialState
    let nearer := lt distance nearest.nearDistance
    let nearest := if nearer then ⟨distance, some (statePlan, nState)⟩ else nearest
    if nearer && le nearest.nearDistance (lit 0) then nearest
    else if nState < nStates then nearest
    else scanStates intialState statePlan nStates (nState + 1) rest nearest

/-- The outer loop of `findPlan`, over the plans of one goal. -/
def scanPlannings (intialState : State F) : List (StatesPlan F) → Nearest F → Nearest F
  | [], nearest => nearest
  | statePlan :: rest, nearest =>
    let nearest := scanStates intialState statePlan (statePlan.states.length - 1) 0 statePlan.states nearest
    if le nearest.nearDistance (lit 0) then nearest else scanPlannings intialState rest nearest

theorem scanStates_cases (intialState : State F) (statePlan : StatesPlan F) (nStates nState : Nat)
    (states : List (State F)) (nearest : Nearest F) :
    scanStates intialState statePlan nStates nState states nearest = nearest ∨
      ∃ nearOffset, (scanStates intialState statePlan nStates nState states nearest).nearStatePlan =
        some (statePlan, nearOffset) := by
  induction states generalizing nState nearest with
  | nil => exact .inl rfl
  | cons storedState rest ih =>
    unfold scanStates
    dsimp only
    cases lt (NumericStateComparer.distance storedState intialState) nearest.nearDistance with
    | false =>
      simp only [Bool.false_eq_true, ↓reduceIte, Bool.false_and]
      split
      · exact .inl rfl
      · exact ih (nState + 1) nearest
    | true =>
      right
      simp only [↓reduceIte, Bool.true_and]
      split
      · exact ⟨nState, rfl⟩
      · split
        · exact ⟨nState, rfl⟩
        · rcases ih (nState + 1) ⟨_, some (statePlan, nState)⟩ with same | found
          · exact ⟨nState, by rw [same]⟩
          · exact found

/-- The nearest plan is one of those looked at. -/
theorem scanPlannings_cases (intialState : State F) (plannings : List (StatesPlan F)) (nearest : Nearest F) :
    scanPlannings intialState plannings nearest = nearest ∨
      ∃ statePlan ∈ plannings, ∃ nearOffset,
        (scanPlannings intialState plannings nearest).nearStatePlan = some (statePlan, nearOffset) := by
  induction plannings generalizing nearest with
  | nil => exact .inl rfl
  | cons statePlan rest ih =>
    have first := scanStates_cases intialState statePlan (statePlan.states.length - 1) 0 statePlan.states nearest
    unfold scanPlannings
    dsimp only
    generalize scanStates intialState statePlan _ 0 statePlan.states nearest = middle at first ⊢
    have own : middle = nearest ∨ ∃ nearOffset, middle.nearStatePlan = some (statePlan, nearOffset) := first
    split
    · rcases own with same | ⟨nearOffset, found⟩
      · exact .inl same
      · exact .inr ⟨statePlan, by simp, nearOffset, found⟩
    · rcases ih middle with same | ⟨other, member, found⟩
      · rw [same]
        rcases own with kept | ⟨nearOffset, found⟩
        · exact .inl kept
        · exact .inr ⟨statePlan, by simp, nearOffset, found⟩
      · exact .inr ⟨other, by simp [member], found⟩

/-- The rest of the nearest plan, if any, when executing it after `plan` leads to
the goal; nothing when it does not. -/
def retPlan (intialState goalState : State F) (plan : List (PlanningAction F)) (nearest : Nearest F) :
    List (PlanningAction F) :=
  match nearest.nearStatePlan with
  | none => plan
  | some (nearStatePlan, nearOffset) =>
    let retPlan := plan ++ nearStatePlan.plan.drop nearOffset
    if NumericStateComparer.enough (executeActions retPlan intialState) goalState then retPlan else []

end Nearest

/-- A `Planner` with its cache. -/
structure CachingPlanner (F : Type) [FloatOps F] extends Planner F where
  statesCaches : StatesCaches F

/-- How `makePlanCached` ends: it returns the actions, with the states if the
caller asked for them, or throws. It is undefined after `back()` of an empty list,
and unfinished when the fuel of the search runs out. -/
inductive CachedOutcome (F : Type) [FloatOps F] where
  | returned (actionsArray : List (PlanningAction F)) (pStates : Option (List (State F)))
  | thrown (e : Exn)
  | undefined
  | unfinished

def CachedOutcome.actions : CachedOutcome F → List (PlanningAction F)
  | returned actionsArray _ => actionsArray
  | _ => []

namespace CachingPlanner

/-- `Planner()`. -/
def new : CachingPlanner F := ⟨⟨.BreadthFirst, [], none⟩, []⟩

def clear (planner : CachingPlanner F) : CachingPlanner F :=
  { planner with planningMethod := .BreadthFirst, planningActions := [] }

/-- `cacheStates`; `none` when there is no last state, which the source reads. -/
def cacheStates (planner : CachingPlanner F) (states : List (State F)) (plan : List (PlanningAction F)) :
    Option (CachingPlanner F) :=
  match states.getLast? with
  | none => none
  | some goalState =>
    let (plannings, statesCaches) := planner.statesCaches.subscript goalState
    let plannings := plannings ++ [⟨states, plan⟩]
    some { planner with statesCaches := HashedList.insert CacheKey.fits (.of goalState) plannings statesCaches }

def findPlan (planner : CachingPlanner F) (intialState goalState : State F) (plan : List (PlanningAction F)) :
    List (PlanningAction F) × CachingPlanner F :=
  let (plannings, statesCaches) := planner.statesCaches.subscript goalState
  let nearest := Nearest.scanPlannings intialState plannings .new
  (nearest.retPlan intialState goalState plan, { planner with statesCaches })

/-- What `makePlanCached` does with a plan it has made: the goal takes the cost of the
last state and its place in the list, which starts with the initial state. -/
def cachePlan (planner : CachingPlanner F) (initialState goalState : State F) (states : List (State F))
    (plan : List (PlanningAction F)) : Option (CachingPlanner F) :=
  match states.getLast? with
  | none => none
  | some last =>
    let goalState := goalState.setCost last.cost
    planner.cacheStates (initialState :: (states.dropLast ++ [goalState])) plan

def makePlanCached (planner : CachingPlanner F) (initialState : State F) (meter : PlanningStateMeter F)
    (actionsArray : List (PlanningAction F)) (pStates : Option (List (State F))) (fuel : Nat) :
    CachedOutcome F × CachingPlanner F :=
  let goalState := meter.goalState.clone
  let (actionsArray, planner) := planner.findPlan initialState goalState actionsArray
  if !actionsArray.isEmpty then (.returned actionsArray pStates, planner)
  else
    match Planner.makePlan planner.toPlanner meter initialState actionsArray (some (pStates.getD [])) fuel with
    | none => (.unfinished, planner)
    | some (.error e) => (.thrown e, planner)
    | some (.ok result) =>
      let given := pStates.bind fun _ => result.pStates
      if result.actionsArray.isEmpty then (.returned [] given, planner)
      else
        let states := if pStates.isNone then result.pStates.getD [] else []
        match planner.cachePlan initialState goalState states result.actionsArray with
        | none => (.undefined, planner)
        | some planner => (.returned result.actionsArray given, planner)

/-- The search that `makePlanCached` runs when the cache has no plan. -/
def search (planner : CachingPlanner F) (initialState : State F) (meter : PlanningStateMeter F)
    (pStates : Option (List (State F))) (fuel : Nat) : Option (Except Exn (PlanResult F)) :=
  Planner.makePlan planner.toPlanner meter initialState [] (some (pStates.getD [])) fuel

/-- The states that `makePlanCached` stores: those of its own list, which stays
empty when the caller brings one. -/
def storedStates (pStates : Option (List (State F))) (result : PlanResult F) : List (State F) :=
  if pStates.isNone then result.pStates.getD [] else []

/-- The ways through `makePlanCached`: the cache answers, or the search does and
its plan is stored. -/
inductive CachedCall (planner : CachingPlanner F) (initialState : State F) (meter : PlanningStateMeter F)
    (actionsArray : List (PlanningAction F)) (pStates : Option (List (State F))) (fuel : Nat) :
    CachedOutcome F → CachingPlanner F → Prop where
  | hit {actions planner'} (found : planner.findPlan initialState meter.goalState actionsArray = (actions, planner'))
      (planned : actions ≠ []) :
      CachedCall planner initialState meter actionsArray pStates fuel (.returned actions pStates) planner'
  | unfinished {planner'} (missed : planner.findPlan initialState meter.goalState actionsArray = ([], planner'))
      (ran : planner.search initialState meter pStates fuel = none) :
      CachedCall planner initialState meter actionsArray pStates fuel .unfinished planner'
  | thrown {e planner'} (missed : planner.findPlan initialState meter.goalState actionsArray = ([], planner'))
      (ran : planner.search initialState meter pStates fuel = some (.error e)) :
      CachedCall planner initialState meter actionsArray pStates fuel (.thrown e) planner'
  | noPlan {planner' result} (missed : planner.findPlan initialState meter.goalState actionsArray = ([], planner'))
      (ran : planner.search initialState meter pStates fuel = some (.ok result))
      (nothing : result.actionsArray = []) :
      CachedCall planner initialState meter actionsArray pStates fuel
        (.returned [] (pStates.bind fun _ => result.pStates)) planner'
  | undefined {planner' result}
      (missed : planner.findPlan initialState meter.goalState actionsArray = ([], planner'))
      (ran : planner.search initialState meter pStates fuel = some (.ok result)) (planned : result.actionsArray ≠ [])
      (lost : planner'.cachePlan initialState meter.goalState (storedStates pStates result) result.actionsArray =
        none) :
      CachedCall planner initialState meter actionsArray pStates fuel .undefined planner'
  | made {found planner' result}
      (missed : planner.findPlan initialState meter.goalState actionsArray = ([], found))
      (ran : planner.search initialState meter pStates fuel = some (.ok result)) (planned : result.actionsArray ≠ [])
      (stored : found.cachePlan initialState meter.goalState (storedStates pStates result) result.actionsArray =
        some planner') :
      CachedCall planner initialState meter actionsArray pStates fuel
        (.returned result.actionsArray (pStates.bind fun _ => result.pStates)) planner'

theorem makePlanCached_cases (planner : CachingPlanner F) (initialState : State F) (meter : PlanningStateMeter F)
    (actionsArray : List (PlanningAction F)) (pStates : Option (List (State F))) (fuel : Nat) :
    CachedCall planner initialState meter actionsArray pStates fuel
      (planner.makePlanCached initialState meter actionsArray pStates fuel).1
      (planner.makePlanCached initialState meter actionsArray pStates fuel).2 := by
  unfold makePlanCached
  rw [State.clone_eq]
  have same : Planner.makePlan (planner.findPlan initialState meter.goalState actionsArray).2.toPlanner meter
      initialState [] (some (pStates.getD [])) fuel = planner.search initialState meter pStates fuel := rfl
  dsimp only
  generalize looked : planner.findPlan initialState meter.goalState actionsArray = outcome at same ⊢
  obtain ⟨actions, found⟩ := outcome
  cases actions with
  | cons action rest => exact .hit looked (by simp)
  | nil =>
    simp only [List.isEmpty_nil, Bool.not_true, Bool.false_eq_true, ↓reduceIte]
    rw [same]
    cases ran : planner.search initialState meter pStates fuel with
    | none => exact .unfinished looked ran
    | some outcome =>
      cases outcome with
      | error e => exact .thrown looked ran
      | ok result =>
        by_cases nothing : result.actionsArray = []
        · simp only [nothing, List.isEmpty_nil, ↓reduceIte]
          exact .noPlan looked ran nothing
        · simp only [List.isEmpty_iff, nothing, ↓reduceIte]
          cases stored : found.cachePlan initialState meter.goalState (storedStates pStates result)
              result.actionsArray with
          | none =>
            rw [storedStates] at stored
            rw [stored]
            exact .undefined looked ran nothing stored
          | some planner' =>
            rw [storedStates] at stored
            rw [stored]
            exact .made looked ran nothing stored

end CachingPlanner

end Goap
