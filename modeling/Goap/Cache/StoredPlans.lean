import Goap.Cache.RoundTrip

namespace Goap

open FloatOps Foundation

variable {F : Type} [FloatOps F]

/-- What `cacheStates` asks of a plan and its states: one state more than actions,
from the initial state over the results of the actions to the goal. -/
structure StatesPlan.Follows (statesPlan : StatesPlan F) (initialState goalState : State F) : Prop where
  length : statesPlan.states.length = statesPlan.plan.length + 1
  starts : statesPlan.states.head? = some initialState
  ends : ∃ last, statesPlan.states.getLast? = some last ∧ last.data = goalState.data
  between : ∀ (i : Nat) action state next, i + 1 < statesPlan.plan.length → statesPlan.plan[i]? = some action →
    statesPlan.states[i]? = some state → statesPlan.states[i + 1]? = some next →
    action.execute state = .ok next

theorem Executes.getElem? {state : State F} {actions : List (PlanningAction F)} {states : List (State F)}
    (trace : Executes state actions states) (i : Nat) {action : PlanningAction F} {before after : State F}
    (acted : actions[i]? = some action) (left : (state :: states)[i]? = some before)
    (right : states[i]? = some after) : action.execute before = .ok after := by
  induction trace generalizing i with
  | nil => cases acted
  | cons _ step _ ih =>
    cases i with
    | zero =>
      cases acted
      cases left
      cases right
      exact step
    | succ i => exact ih i acted left right

theorem Executes.length {state : State F} {actions : List (PlanningAction F)} {states : List (State F)}
    (trace : Executes state actions states) : states.length = actions.length := by
  induction trace with
  | nil => rfl
  | cons _ _ _ ih => exact congrArg (· + 1) ih

/-- The last state of an executed plan may be replaced by the goal. -/
theorem Executes.follows {initialState goalState : State F} {actions : List (PlanningAction F)}
    {states : List (State F)} (trace : Executes initialState actions states) (planned : actions ≠ []) (cost : F) :
    StatesPlan.Follows ⟨initialState :: (states.dropLast ++ [goalState.setCost cost]), actions⟩ initialState
      goalState := by
  have size := trace.length
  have some_ : 0 < actions.length := List.length_pos_iff.mpr planned
  have kept : ∀ j < states.length,
      (initialState :: (states.dropLast ++ [goalState.setCost cost]))[j]? = (initialState :: states)[j]? := by
    intro j bound
    cases j with
    | zero => rfl
    | succ j =>
      have short : j < states.dropLast.length := by
        rw [List.length_dropLast]
        omega
      rw [List.getElem?_cons_succ, List.getElem?_cons_succ, List.getElem?_append_left short,
        List.getElem?_dropLast, if_pos (by omega)]
  refine ⟨?_, rfl, ⟨goalState.setCost cost, ?_, rfl⟩, ?_⟩
  · simp only [List.length_cons, List.length_append, List.length_dropLast, List.length_nil]
    omega
  · rw [← List.cons_append, List.getLast?_concat]
  · intro i action state next inner acted before after
    dsimp only at inner acted before after
    rw [kept i (by omega)] at before
    rw [kept (i + 1) (by omega)] at after
    exact trace.getElem? i acted before after

def StatesCaches.plans (statesCaches : StatesCaches F) : List (StatesPlan F) := statesCaches.flatMap Prod.snd

theorem StatesCaches.plans_insert {statesCaches : StatesCaches F} {key : CacheKey F}
    {plannings : List (StatesPlan F)} {statesPlan : StatesPlan F}
    (member : statesPlan ∈ StatesCaches.plans (HashedList.insert CacheKey.fits key plannings statesCaches)) :
    statesPlan ∈ statesCaches.plans ∨ statesPlan ∈ plannings := by
  obtain ⟨entry, stored, present⟩ := List.mem_flatMap.mp member
  rcases HashedList.mem_insert stored with old | ⟨own, _⟩
  · exact .inl (List.mem_flatMap.mpr ⟨entry, old, present⟩)
  · exact .inr (own ▸ present)

theorem StatesCaches.plans_subscript (statesCaches : StatesCaches F) (goalState : State F) :
    (∀ statesPlan ∈ (statesCaches.subscript goalState).1, statesPlan ∈ statesCaches.plans) ∧
      ∀ statesPlan ∈ StatesCaches.plans (statesCaches.subscript goalState).2, statesPlan ∈ statesCaches.plans := by
  unfold StatesCaches.subscript
  cases selected : HashedList.lookup CacheKey.fits (.of goalState) statesCaches with
  | some plannings =>
    obtain ⟨key, present, _⟩ := HashedList.lookup_mem selected
    refine ⟨?_, fun _ member => member⟩
    exact fun statesPlan member => List.mem_flatMap.mpr ⟨(key, plannings), present, member⟩
  | none =>
    constructor
    · intro statesPlan member
      cases member
    · intro statesPlan member
      rcases plans_insert member with old | absent
      · exact old
      · cases absent

def CachedOutcome.isUndefined : CachedOutcome F → Bool
  | undefined => true
  | _ => false

namespace CachingPlanner

variable {planner planner' : CachingPlanner F} {initialState goalState : State F}

theorem plans_cacheStates {states : List (State F)} {plan : List (PlanningAction F)}
    (stored : planner.cacheStates states plan = some planner') :
    ∀ statesPlan ∈ planner'.statesCaches.plans,
      statesPlan ∈ planner.statesCaches.plans ∨ statesPlan = ⟨states, plan⟩ := by
  unfold cacheStates at stored
  split at stored
  · cases stored
  · rename_i goalState _
    cases stored
    intro statesPlan member
    obtain ⟨shown, kept⟩ := planner.statesCaches.plans_subscript goalState
    rcases StatesCaches.plans_insert member with old | new
    · exact .inl (kept statesPlan old)
    · rcases List.mem_append.mp new with previous | own
      · exact .inl (shown statesPlan previous)
      · exact .inr (List.mem_singleton.mp own)

/-- `makePlanCached` stays clear of the last state of an empty list, and every plan
it stores follows its goal. -/
def StoresWell (planner : CachingPlanner F) (initialState : State F) (meter : PlanningStateMeter F)
    (pStates : Option (List (State F))) (fuel : Nat) : Prop :=
  let (outcome, planner') := planner.makePlanCached initialState meter [] pStates fuel
  outcome ≠ .undefined ∧ ∀ statesPlan ∈ planner'.statesCaches.plans,
    statesPlan ∈ planner.statesCaches.plans ∨ statesPlan.Follows initialState meter.goalState

theorem exists_storedStates {meter : PlanningStateMeter F} {fuel : Nat} {result : PlanResult F}
    (ran : planner.search initialState meter none fuel = some (.ok result)) (planned : result.actionsArray ≠ []) :
    ∃ states, Executes initialState result.actionsArray states ∧ storedStates none result = states := by
  rcases Planner.makePlan_cases ran with ⟨_, nothing⟩ | ⟨_, states, trace, _, _, reported⟩
  · exact absurd nothing planned
  · refine ⟨states, trace, ?_⟩
    rw [storedStates, reported]
    simp

theorem exists_cachePlan {states : List (State F)} (some_ : states ≠ []) (planner : CachingPlanner F)
    (initialState goalState : State F) (plan : List (PlanningAction F)) :
    ∃ last planner', planner.cachePlan initialState goalState states plan = some planner' ∧
      planner.cacheStates (initialState :: (states.dropLast ++ [goalState.setCost last])) plan = some planner' := by
  have ended := List.getLast?_eq_some_getLast some_
  have cached : ∃ planner', planner.cacheStates
      (initialState :: (states.dropLast ++ [goalState.setCost (states.getLast some_).cost])) plan =
        some planner' := by
    unfold cacheStates
    rw [← List.cons_append, List.getLast?_concat]
    exact ⟨_, rfl⟩
  obtain ⟨planner', cached⟩ := cached
  refine ⟨(states.getLast some_).cost, planner', ?_, cached⟩
  unfold cachePlan
  rw [ended]
  exact cached

/-- The states are stored as they should be exactly when the caller brings no list
of states, or no plan is made that the cache has not. -/
theorem storesWell_iff (planner : CachingPlanner F) (initialState : State F) (meter : PlanningStateMeter F)
    (pStates : Option (List (State F))) (fuel : Nat) :
    StoresWell planner initialState meter pStates fuel ↔
      (pStates ≠ none → (planner.findPlan initialState meter.goalState []).1 = [] → ∀ result,
        planner.search initialState meter pStates fuel = some (.ok result) → result.actionsArray = []) := by
  have ways := makePlanCached_cases planner initialState meter [] pStates fuel
  unfold StoresWell
  generalize planner.makePlanCached initialState meter [] pStates fuel = outcome at ways ⊢
  obtain ⟨outcome, planner'⟩ := outcome
  have looked := (planner.statesCaches.plans_subscript meter.goalState).2
  have found_ : (planner.findPlan initialState meter.goalState []).2.statesCaches =
      (planner.statesCaches.subscript meter.goalState).2 := rfl
  rw [← found_] at looked
  dsimp only
  cases ways with
  | hit found planned =>
    rw [found] at looked ⊢
    exact iff_of_true ⟨nofun, fun statesPlan member => .inl (looked statesPlan member)⟩
      fun _ missed => absurd missed planned
  | unfinished missed ran =>
    rw [missed] at looked ⊢
    refine iff_of_true ⟨nofun, fun statesPlan member => .inl (looked statesPlan member)⟩ ?_
    intro _ _ result ran'
    cases ran.symm.trans ran'
  | thrown missed ran =>
    rw [missed] at looked ⊢
    refine iff_of_true ⟨nofun, fun statesPlan member => .inl (looked statesPlan member)⟩ ?_
    intro _ _ result ran'
    cases ran.symm.trans ran'
  | noPlan missed ran nothing =>
    rw [missed] at looked ⊢
    refine iff_of_true ⟨nofun, fun statesPlan member => .inl (looked statesPlan member)⟩ ?_
    intro _ _ result ran'
    cases ran.symm.trans ran'
    exact nothing
  | @undefined _ result missed ran planned lost =>
    refine iff_of_false (fun stores => stores.1 rfl) ?_
    intro nothing
    cases pStates with
    | some brought => exact planned (nothing (by simp) (by rw [missed]) result ran)
    | none =>
      obtain ⟨states, trace, own⟩ := exists_storedStates ran planned
      obtain ⟨_, _, stored, _⟩ := exists_cachePlan (trace.states_ne_nil planned) planner' initialState
        meter.goalState result.actionsArray
      rw [own, stored] at lost
      cases lost
  | @made found _ result missed ran planned stored =>
    cases pStates with
    | some brought => cases stored
    | none =>
      rw [missed] at looked
      obtain ⟨states, trace, own⟩ := exists_storedStates ran planned
      obtain ⟨cost, _, stored', cached⟩ := exists_cachePlan (trace.states_ne_nil planned) found initialState
        meter.goalState result.actionsArray
      rw [own] at stored
      cases stored.symm.trans stored'
      refine iff_of_true ⟨nofun, ?_⟩ fun brought => absurd rfl brought
      intro statesPlan member
      rcases plans_cacheStates cached statesPlan member with old | new
      · exact .inl (looked statesPlan old)
      · rw [new]
        exact .inr (trace.follows planned cost)

/-- The planner that knows the way from place 1 to place 2 is asked for it by a
caller who wants the states too. -/
theorem storesWell_fails : ¬ ∀ planner : CachingPlanner Float32, Lifetime AnyCall planner →
    ∀ initialState meter pStates fuel, StoresWell planner initialState meter pStates fuel := by
  intro stores
  have lifetime : Lifetime AnyCall (walker 1) :=
    Lifetime.calls .new (show new.calls [.planningActions [walk 1]] = some (walker 1) from rfl)
  have well := stores (walker 1) lifetime (place 1) (comparerStateMeter (place 2)) (some []) 10
  have answers : ((walker 1).makePlanCached (place 1) (comparerStateMeter (place 2)) [] (some []) 10).1.isUndefined =
      true := by decide +kernel
  unfold StoresWell at well
  generalize (walker 1).makePlanCached (place 1) (comparerStateMeter (place 2)) [] (some []) 10 = outcome
    at well answers
  obtain ⟨outcome, planner'⟩ := outcome
  cases outcome with
  | undefined => exact well.1 rfl
  | returned actions given => cases answers
  | thrown e => cases answers
  | unfinished => cases answers

end CachingPlanner

end Goap
