import Goap.Cache.StoredPlans

/-! Whether a cached plan is used again from one of its middle states. `findPlan`
leaves its inner loop at the first stored state unless it is the last one, so of a
plan it compares the initial state only. -/

namespace Goap

open FloatOps Foundation

variable {F : Type} [FloatOps F]

namespace CachingPlanner

/-- The call stores this plan, and none but it stands under the goal afterwards. -/
structure StoresOnly (planner : CachingPlanner F) (initialState : State F) (meter : PlanningStateMeter F)
    (fuel : Nat) (planner' : CachingPlanner F) (statesPlan : StatesPlan F) : Prop where
  before : (planner.statesCaches.subscript meter.goalState).1 = []
  ran : (planner.makePlanCached initialState meter [] none fuel).2 = planner'
  after : (planner'.statesCaches.subscript meter.goalState).1 = [statesPlan]

/-- Before each of its actions a stored plan is found again. -/
def ReusesMiddle (planner : CachingPlanner F) (goalState : State F) (statesPlan : StatesPlan F) : Prop :=
  ∀ i < statesPlan.plan.length, ∀ state, statesPlan.states[i]? = some state →
    (planner.findPlan state goalState []).1 ≠ []

variable {planner planner' : CachingPlanner F} {initialState goalState : State F} {meter : PlanningStateMeter F}
  {fuel : Nat} {statesPlan : StatesPlan F}

theorem findPlan_of_empty (initialState : State F) (nothing : (planner.statesCaches.subscript goalState).1 = []) :
    (planner.findPlan initialState goalState []).1 = [] := by
  rw [findPlan_eq, selected, nothing]
  split <;> rfl

/-- The only plan stored starts in the initial state and has another state after it. -/
theorem StoresOnly.shape (stores : StoresOnly planner initialState meter fuel planner' statesPlan) :
    ∃ next rest, statesPlan.states = initialState :: next :: rest := by
  obtain ⟨before, ran, after⟩ := stores
  have again := (StatesCaches.subscript_twice planner.statesCaches meter.goalState).1
  have missed' := findPlan_of_empty initialState before
  have opened : (planner.findPlan initialState meter.goalState []).2.statesCaches =
      (planner.statesCaches.subscript meter.goalState).2 := rfl
  rw [← opened, before] at again
  have ways := makePlanCached_cases planner initialState meter [] none fuel
  generalize planner.makePlanCached initialState meter [] none fuel = outcome at ran ways
  obtain ⟨outcome, last⟩ := outcome
  cases ran
  cases ways with
  | hit found planned =>
    rw [found] at missed'
    exact absurd missed' planned
  | unfinished missed ran =>
    rw [missed, after] at again
    cases again
  | thrown missed ran =>
    rw [missed, after] at again
    cases again
  | noPlan missed ran nothing =>
    rw [missed, after] at again
    cases again
  | undefined missed ran planned lost =>
    rw [missed, after] at again
    cases again
  | made missed ran planned stored =>
    obtain ⟨states, trace, own⟩ := exists_storedStates ran planned
    rw [own] at stored
    have found := congrArg Prod.snd missed
    dsimp only at found
    rw [← found] at stored
    obtain ⟨next, rest, shown⟩ := subscript_cachePlan
      (List.getLast?_eq_some_getLast (trace.states_ne_nil planned)) stored
    rw [after, before] at shown
    split at shown
    · cases shown
      exact ⟨next, rest, rfl⟩
    · cases shown

/-- Where one plan stands under the goal, a lookup finds it exactly when it starts
near and, executed as far as it goes, leads to the goal. -/
theorem findPlan_single {storedState next : State F} {rest : List (State F)} {plan : List (PlanningAction F)}
    (only : (planner.statesCaches.subscript goalState).1 = [⟨storedState :: next :: rest, plan⟩])
    (planned : plan ≠ []) (state : State F) :
    (planner.findPlan state goalState []).1 ≠ [] ↔
      lt (NumericStateComparer.distance storedState state) (lit 1) = true ∧
        NumericStateComparer.enough (executeActions plan state) goalState = true := by
  rw [findPlan_eq, selected, only, Nearest.scanPlannings_single]
  cases near : lt (NumericStateComparer.distance storedState state) (lit 1) with
  | false => simp [Nearest.new, near, Nearest.rest]
  | true => simp [Nearest.new, near, Nearest.rest, planned]

/-- The only plan of a goal is found from all its states but the last exactly when
each of them is near the first and the whole plan leads from it to the goal. -/
theorem reusesMiddle_iff (planner : CachingPlanner F) (initialState : State F) (meter : PlanningStateMeter F)
    (fuel : Nat) (planner' : CachingPlanner F) (statesPlan : StatesPlan F)
    (stores : StoresOnly planner initialState meter fuel planner' statesPlan) :
    ReusesMiddle planner' meter.goalState statesPlan ↔
      ∀ i < statesPlan.plan.length, ∀ state, statesPlan.states[i]? = some state →
        lt (NumericStateComparer.distance initialState state) (lit 1) = true ∧
          NumericStateComparer.enough (executeActions statesPlan.plan state) meter.goalState = true := by
  obtain ⟨next, rest, shape⟩ := stores.shape
  have only := stores.after
  obtain ⟨states, plan⟩ := statesPlan
  dsimp only at shape
  subst shape
  refine forall_congr' fun i => forall_congr' fun bound => forall₂_congr fun state _ => ?_
  have planned : plan ≠ [] := List.ne_nil_of_length_pos (Nat.zero_lt_of_lt bound)
  exact findPlan_single only planned state

/-- Leads from place x to place x + 1, below a top. -/
def climb (top : ℚ) : PlanningAction Float32 where
  name := "climb"
  validator state :=
    let below := (state.find? (.ofString "x")).any fun value => lt (value.atInt64 0) (lit top)
    .ok (if below then lit 1 else lit 0)
  executor state :=
    match state.add (.ofString "x") (.scalar (lit 1)) with
    | none => .error "x is missing"
    | some next => .ok next

def climber (top : ℚ) : CachingPlanner Float32 := ⟨⟨.BreadthFirst, [climb top], none⟩, []⟩

def climbed (start top : ℚ) : CachingPlanner Float32 :=
  ((climber top).makePlanCached (place start) (comparerStateMeter (place top)) [] none 10).2

theorem climbed_stores (start top : ℚ) (one : ((climbed start top).statesCaches.subscript (place top)).1.length = 1) :
    ∃ statesPlan, ((climbed start top).statesCaches.subscript (place top)).1 = [statesPlan] ∧
      StoresOnly (climber top) (place start) (comparerStateMeter (place top)) 10 (climbed start top) statesPlan := by
  obtain ⟨statesPlan, only⟩ := List.length_eq_one_iff.mp one
  exact ⟨statesPlan, only, rfl, rfl, only⟩

/-- From place 2 the way from place 1 to place 3 is found: half of it is walked. -/
theorem reusesMiddle_climber : ∃ statesPlan, statesPlan.plan.length = 2 ∧
    ReusesMiddle (climbed 1 3) (place 3) statesPlan := by
  obtain ⟨statesPlan, only, stores⟩ := climbed_stores 1 3 (by decide +kernel)
  have answers : ((climbed 1 3).statesCaches.subscript (place 3)).1.map (fun statesPlan =>
      (statesPlan.plan.length, (statesPlan.states.take 2).all fun state =>
        lt (NumericStateComparer.distance (place 1) state) (lit 1) &&
          NumericStateComparer.enough (executeActions statesPlan.plan state) (place 3))) = [(2, true)] := by
    decide +kernel
  rw [only] at answers
  obtain ⟨size, near⟩ := Prod.mk.inj (List.cons.inj answers).1
  refine ⟨statesPlan, size, (reusesMiddle_iff _ _ _ _ _ _ stores).mpr ?_⟩
  intro i bound state present
  have taken : state ∈ statesPlan.states.take 2 := by
    rw [size] at bound
    exact List.mem_of_getElem? ((List.getElem?_take_of_lt bound).trans present)
  exact Bool.and_eq_true_iff.mp (List.all_eq_true.mp near state taken)

/-- The same keys as in another state, one component under each of them, and cost 1. -/
def IsPlain (initialState state : State Float32) : Prop :=
  state.data.map Prod.fst = initialState.data.map Prod.fst ∧ (∀ entry ∈ state.data, entry.2.size = 1) ∧
    state.cost = lit 1

instance (initialState state : State Float32) : Decidable (IsPlain initialState state) :=
  inferInstanceAs (Decidable (_ ∧ _ ∧ _))

/-- The way from place 0 to place 2 is not found from place 1. -/
theorem reusesMiddle_fails : ¬ ∀ planner : CachingPlanner Float32, Lifetime AnyCall planner →
    ∀ initialState goalState fuel planner' statesPlan,
      StoresOnly planner initialState (comparerStateMeter goalState) fuel planner' statesPlan →
      2 ≤ statesPlan.plan.length → (∀ state ∈ statesPlan.states, IsPlain initialState state) →
      ReusesMiddle planner' goalState statesPlan := by
  intro reuses
  have lifetime : Lifetime AnyCall (climber 2) :=
    Lifetime.calls .new (show new.calls [.planningActions [climb 2]] = some (climber 2) from rfl)
  obtain ⟨statesPlan, only, stores⟩ := climbed_stores 0 2 (by decide +kernel)
  have answers : ((climbed 0 2).statesCaches.subscript (place 2)).1.map (fun statesPlan =>
      (statesPlan.plan.length, decide (∀ state ∈ statesPlan.states, IsPlain (place 0) state),
        statesPlan.states[1]?.map fun state => ((climbed 0 2).findPlan state (place 2) []).1.length)) =
          [(2, true, some 0)] := by decide +kernel
  rw [only] at answers
  obtain ⟨size, plain, missed⟩ : statesPlan.plan.length = 2 ∧ _ ∧ _ := by simpa using answers
  obtain ⟨state, present, none⟩ := missed
  exact reuses (climber 2) lifetime (place 0) (place 2) 10 (climbed 0 2) statesPlan stores (by omega) plain 1 (by omega)
    state present none

end CachingPlanner

end Goap
