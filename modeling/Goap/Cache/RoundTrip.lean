import Goap.Cache.CachedSoundness

/-! Whether a plan that `makePlanCached` has stored is found again. The goal is
stored at the cost of the reached state and looked up at its own. -/

namespace Goap

open FloatOps Foundation

variable {F : Type} [FloatOps F]

namespace StatesCaches

variable {statesCaches : StatesCaches F} {goalState : State F} {cost : F}

theorem subscript_fst (statesCaches : StatesCaches F) (goalState : State F) :
    (statesCaches.subscript goalState).1 =
      (HashedList.lookup CacheKey.fits (.of goalState) statesCaches).getD [] := by
  unfold subscript
  cases HashedList.lookup CacheKey.fits (.of goalState) statesCaches <;> rfl

/-- A lookup of the goal would find what is stored under it: it is stored already,
or it equals itself. -/
def finds (statesCaches : StatesCaches F) (goalState : State F) : Bool :=
  (HashedList.lookup CacheKey.fits (.of goalState) statesCaches).isSome || goalState.equals goalState

theorem fits_setCost (same : (goalState.setCost cost).hash = goalState.hash) (key : CacheKey F) :
    CacheKey.fits (.of (goalState.setCost cost)) key = CacheKey.fits (.of goalState) key := by
  simp [CacheKey.fits, CacheKey.of, same]

theorem fits_of_setCost (same : (goalState.setCost cost).hash = goalState.hash) :
    CacheKey.fits (.of goalState) (.of (goalState.setCost cost)) = goalState.equals goalState := by
  simp [CacheKey.fits, CacheKey.of, same]

theorem fits_apart (apart : (goalState.setCost cost).hash ≠ goalState.hash) (key : CacheKey F)
    (accepted : CacheKey.fits (.of (goalState.setCost cost)) key = true) :
    CacheKey.fits (.of goalState) key = false := by
  simp only [CacheKey.fits, CacheKey.of, Bool.and_eq_true, beq_iff_eq] at accepted ⊢
  simp [← accepted.1, apart.symm]

theorem not_fits_of_setCost (apart : (goalState.setCost cost).hash ≠ goalState.hash) :
    CacheKey.fits (.of goalState) (.of (goalState.setCost cost)) = false := by
  simp [CacheKey.fits, CacheKey.of, apart.symm]

theorem lookup_setCost (same : (goalState.setCost cost).hash = goalState.hash) :
    HashedList.lookup CacheKey.fits (.of (goalState.setCost cost)) statesCaches =
      HashedList.lookup CacheKey.fits (.of goalState) statesCaches :=
  HashedList.lookup_congr fun entry _ => fits_setCost same entry.1

theorem lookup_subscript (same : (goalState.setCost cost).hash = goalState.hash) :
    HashedList.lookup CacheKey.fits (.of goalState) (statesCaches.subscript (goalState.setCost cost)).2 =
      if statesCaches.finds goalState then some (statesCaches.subscript goalState).1 else none := by
  rw [subscript_fst, finds, subscript, lookup_setCost same]
  cases selected : HashedList.lookup CacheKey.fits (.of goalState) statesCaches with
  | some plannings => simp [selected]
  | none =>
    dsimp only
    rw [HashedList.lookup_insert fun key => (fits_setCost same key).symm, selected, fits_of_setCost same]
    rfl

theorem lookup_subscript_apart (apart : (goalState.setCost cost).hash ≠ goalState.hash) :
    HashedList.lookup CacheKey.fits (.of goalState) (statesCaches.subscript (goalState.setCost cost)).2 =
      HashedList.lookup CacheKey.fits (.of goalState) statesCaches := by
  unfold subscript
  cases HashedList.lookup CacheKey.fits (.of (goalState.setCost cost)) statesCaches with
  | some plannings => rfl
  | none => exact HashedList.lookup_insert_other (fits_apart apart) (not_fits_of_setCost apart)

theorem subscript_of_not_finds (lost : statesCaches.finds goalState = false) :
    (statesCaches.subscript goalState).1 = [] := by
  have absent : HashedList.lookup CacheKey.fits (.of goalState) statesCaches = none := by
    simpa using (Bool.or_eq_false_iff.mp lost).1
  rw [subscript_fst, absent]
  rfl

theorem subscript_twice (statesCaches : StatesCaches F) (goalState : State F) :
    (StatesCaches.subscript (statesCaches.subscript goalState).2 goalState).1 =
        (statesCaches.subscript goalState).1 ∧
      StatesCaches.finds (statesCaches.subscript goalState).2 goalState = statesCaches.finds goalState := by
  have found : HashedList.lookup CacheKey.fits (.of goalState) (statesCaches.subscript goalState).2 = _ :=
    lookup_subscript (show (goalState.setCost goalState.cost).hash = goalState.hash from rfl)
  cases known : statesCaches.finds goalState with
  | true =>
    rw [known, if_pos rfl] at found
    rw [subscript_fst, finds, found]
    exact ⟨rfl, rfl⟩
  | false =>
    rw [known, if_neg Bool.false_ne_true] at found
    rw [subscript_fst, finds, found, subscript_of_not_finds known]
    refine ⟨rfl, ?_⟩
    simp_all [finds]

/-- `findPlan` has looked the goal up and a plan is then stored under the goal at
the cost of the reached state: what the next lookup of the goal shows. -/
theorem subscript_stored (statesCaches : StatesCaches F) (goalState : State F) (cost : F)
    (statesPlan : StatesPlan F) :
    let looked := (statesCaches.subscript goalState).2
    let (plannings, opened) := looked.subscript (goalState.setCost cost)
    (StatesCaches.subscript (HashedList.insert CacheKey.fits (.of (goalState.setCost cost))
        (plannings ++ [statesPlan]) opened) goalState).1 =
      if (goalState.setCost cost).hash = goalState.hash ∧ statesCaches.finds goalState then
        (statesCaches.subscript goalState).1 ++ [statesPlan]
      else (statesCaches.subscript goalState).1 := by
  obtain ⟨again, known⟩ := subscript_twice statesCaches goalState
  dsimp only
  rw [subscript_fst]
  by_cases same : (goalState.setCost cost).hash = goalState.hash
  · have plannings : (StatesCaches.subscript (statesCaches.subscript goalState).2 (goalState.setCost cost)).1 =
        (statesCaches.subscript goalState).1 := by
      rw [← again, subscript_fst, subscript_fst, lookup_setCost same]
    rw [HashedList.lookup_insert fun key => (fits_setCost same key).symm, fits_of_setCost same,
      lookup_subscript same, known, plannings]
    cases found : statesCaches.finds goalState with
    | true => simp [same]
    | false =>
      rw [subscript_of_not_finds found]
      simp_all [finds]
  · rw [HashedList.lookup_insert_other (fits_apart same) (not_fits_of_setCost same), lookup_subscript_apart same,
      ← subscript_fst, again, if_neg fun both => same both.1]

end StatesCaches

namespace Nearest

/-- The scan of some plans has come to a stored state that is near enough to stop at. -/
def stopped (plannings : List (StatesPlan F)) (nearest : Nearest F) : Bool :=
  !plannings.isEmpty && le nearest.nearDistance (lit 0)

theorem scanPlannings_append (intialState : State F) (plannings others : List (StatesPlan F))
    (nearest : Nearest F) :
    scanPlannings intialState (plannings ++ others) nearest =
      if stopped plannings (scanPlannings intialState plannings nearest) then
        scanPlannings intialState plannings nearest
      else scanPlannings intialState others (scanPlannings intialState plannings nearest) := by
  induction plannings generalizing nearest with
  | nil => rfl
  | cons statePlan rest ih =>
    rw [List.cons_append, scanPlannings, scanPlannings]
    generalize scanStates intialState statePlan _ 0 statePlan.states nearest = middle
    cases near : le middle.nearDistance (lit 0) with
    | true => simp [stopped, near]
    | false =>
      simp only [Bool.false_eq_true, ↓reduceIte, ih middle]
      cases rest with
      | nil => simp [stopped, scanPlannings, near]
      | cons next rest => rfl

theorem scanPlannings_single (intialState storedState next : State F) (states : List (State F))
    (plan : List (PlanningAction F)) (nearest : Nearest F) :
    scanPlannings intialState [⟨storedState :: next :: states, plan⟩] nearest =
      if lt (NumericStateComparer.distance storedState intialState) nearest.nearDistance then
        ⟨NumericStateComparer.distance storedState intialState, some (⟨storedState :: next :: states, plan⟩, 0)⟩
      else nearest := by
  simp [scanPlannings, scanStates]

/-- What a lookup returns when the last plan it may see starts in the initial state
and leads to the goal. -/
theorem retPlan_append {intialState goalState : State F} {plan : List (PlanningAction F)}
    (valid : NumericStateComparer.enough (executeActions plan intialState) goalState = true) (next : State F)
    (states : List (State F)) (plannings : List (StatesPlan F)) (nearest : Nearest F) :
    let seen := scanPlannings intialState plannings nearest
    let all := scanPlannings intialState (plannings ++ [⟨intialState :: next :: states, plan⟩]) nearest
    all.retPlan intialState goalState [] =
      if stopped plannings seen = false ∧
          lt (NumericStateComparer.distance intialState intialState) seen.nearDistance = true then plan
      else seen.retPlan intialState goalState [] := by
  dsimp only
  rw [scanPlannings_append]
  generalize scanPlannings intialState plannings nearest = seen
  cases stopped plannings seen with
  | true => simp
  | false =>
    rw [if_neg Bool.false_ne_true, scanPlannings_single]
    cases lt (NumericStateComparer.distance intialState intialState) seen.nearDistance with
    | true => simp [retPlan_nil, rest, valid]
    | false => simp

end Nearest

namespace CachingPlanner

variable {planner planner' : CachingPlanner F} {initialState goalState : State F} {meter : PlanningStateMeter F}
  {cost : F}

/-- The nearest plan that `findPlan` sees for a goal. -/
def nearest (planner : CachingPlanner F) (initialState goalState : State F) : Nearest F :=
  Nearest.scanPlannings initialState (planner.statesCaches.subscript goalState).1 .new

/-- A non-empty plan returned by `makePlanCached` is found by the next `findPlan`. -/
def RoundTrips (planner : CachingPlanner F) (initialState : State F) (meter : PlanningStateMeter F)
    (fuel : Nat) : Prop :=
  ∀ actions given planner', planner.makePlanCached initialState meter [] none fuel =
    (.returned actions given, planner') → actions ≠ [] →
    (planner'.findPlan initialState meter.goalState.clone []).1 ≠ []

/-- What it takes for a plan stored at a reached cost to be found again: the goal
hashes alike at that cost and is found by a lookup, and no plan that was stored
under it before keeps the search from coming to the new one. -/
structure StaysFound (planner : CachingPlanner F) (initialState goalState : State F) (cost : F) : Prop where
  hash : (goalState.setCost cost).hash = goalState.hash
  finds : planner.statesCaches.finds goalState = true
  passes : Nearest.stopped (planner.statesCaches.subscript goalState).1
    (planner.nearest initialState goalState) = false
  nearer : lt (NumericStateComparer.distance initialState initialState)
    (planner.nearest initialState goalState).nearDistance = true

/-- The plans under the goal after `cachePlan`, when `findPlan` has looked it up before. -/
theorem subscript_cachePlan {states : List (State F)} {last : State F} {plan : List (PlanningAction F)}
    (ended : states.getLast? = some last)
    (stored : (planner.findPlan initialState goalState []).2.cachePlan initialState goalState states plan =
      some planner') :
    ∃ next rest, (planner'.statesCaches.subscript goalState).1 =
      if (goalState.setCost last.cost).hash = goalState.hash ∧ planner.statesCaches.finds goalState then
        (planner.statesCaches.subscript goalState).1 ++ [⟨initialState :: next :: rest, plan⟩]
      else (planner.statesCaches.subscript goalState).1 := by
  obtain ⟨next, rest, shape⟩ : ∃ next rest, states.dropLast ++ [goalState.setCost last.cost] = next :: rest :=
    List.exists_cons_of_ne_nil (by simp)
  refine ⟨next, rest, ?_⟩
  have shown := StatesCaches.subscript_stored planner.statesCaches goalState last.cost
    ⟨initialState :: (states.dropLast ++ [goalState.setCost last.cost]), plan⟩
  simp only [cachePlan, ended, cacheStates, ← List.cons_append, List.getLast?_concat] at stored
  cases stored
  rw [shape] at shown
  simp only [List.cons_append, shape]
  exact shown

/-- The plan just stored is the one that the next lookup returns, or the next lookup
misses as the one before. -/
theorem findPlan_stored {states : List (State F)} {last : State F} {plan : List (PlanningAction F)}
    (missed : (planner.findPlan initialState goalState []).1 = []) (ended : states.getLast? = some last)
    (valid : NumericStateComparer.enough (executeActions plan initialState) goalState = true)
    (planned : plan ≠ [])
    (stored : (planner.findPlan initialState goalState []).2.cachePlan initialState goalState states plan =
      some planner') :
    (planner'.findPlan initialState goalState []).1 ≠ [] ↔ StaysFound planner initialState goalState last.cost := by
  obtain ⟨next, rest, shown⟩ := subscript_cachePlan ended stored
  have again : (planner'.findPlan initialState goalState []).1 =
      Nearest.retPlan initialState goalState [] (Nearest.scanPlannings initialState
        (planner'.statesCaches.subscript goalState).1 .new) := rfl
  rw [again, shown]
  by_cases found : (goalState.setCost last.cost).hash = goalState.hash ∧ planner.statesCaches.finds goalState
  · rw [if_pos found, Nearest.retPlan_append valid]
    split
    · rename_i seen
      exact iff_of_true planned ⟨found.1, found.2, seen.1, seen.2⟩
    · rename_i lost
      constructor
      · exact fun returned => absurd missed returned
      · exact fun stays => absurd ⟨stays.passes, stays.nearer⟩ lost
  · rw [if_neg found]
    constructor
    · exact fun returned => absurd missed returned
    · exact fun stays => absurd ⟨stays.hash, stays.finds⟩ found

theorem findPlan_twice (planner : CachingPlanner F) (initialState goalState : State F) :
    ((planner.findPlan initialState goalState []).2.findPlan initialState goalState []).1 =
      (planner.findPlan initialState goalState []).1 := by
  have same := (StatesCaches.subscript_twice planner.statesCaches goalState).1
  rw [findPlan_eq, findPlan_eq]
  unfold selected
  rw [← same]
  rfl

theorem enough_of_search {pStates : Option (List (State F))} {fuel : Nat} {result : PlanResult F}
    (implies : ∀ state, meter.enough state = .ok true → NumericStateComparer.enough state meter.goalState = true)
    (ran : planner.search initialState meter pStates fuel = some (.ok result)) (planned : result.actionsArray ≠ []) :
    NumericStateComparer.enough (executeActions result.actionsArray initialState) meter.goalState = true ∧
      ∃ last, (result.pStates.getD []).getLast? = some last := by
  rcases Planner.makePlan_cases ran with ⟨_, nothing⟩ | ⟨_, states, trace, _, enough, given⟩
  · exact absurd nothing planned
  · have halts : Halts (reached initialState states) [] := trivial
    have whole : NumericStateComparer.enough (executeActions (result.actionsArray ++ []) initialState)
        meter.goalState = _ := enough_executeActions trace halts
    rw [List.append_nil] at whole
    constructor
    · rw [whole]
      exact implies _ enough
    · apply Option.isSome_iff_exists.mp
      rw [List.getLast?_isSome, given]
      exact fun empty => trace.states_ne_nil planned (List.append_eq_nil_iff.mp empty).1

/-- A plan stored by `makePlanCached` is found again exactly when the cache had one
before, or the goal is found at the cost of the reached state and no older plan
is in the way. -/
theorem roundTrip_iff (planner : CachingPlanner F) (initialState : State F) (meter : PlanningStateMeter F)
    (fuel : Nat) (implies : ∀ state, meter.enough state = .ok true →
      NumericStateComparer.enough state meter.goalState = true) :
    RoundTrips planner initialState meter fuel ↔
      ((planner.findPlan initialState meter.goalState []).1 = [] → ∀ result last,
        planner.search initialState meter none fuel = some (.ok result) → result.actionsArray ≠ [] →
        (result.pStates.getD []).getLast? = some last →
        StaysFound planner initialState meter.goalState last.cost) := by
  have ways := makePlanCached_cases planner initialState meter [] none fuel
  unfold RoundTrips
  generalize called : planner.makePlanCached initialState meter [] none fuel = outcome at ways
  obtain ⟨outcome, planner'⟩ := outcome
  simp only [State.clone_eq]
  cases ways with
  | hit found planned =>
    have again := findPlan_twice planner initialState meter.goalState
    rw [found] at again ⊢
    constructor
    · exact fun _ missed => absurd missed planned
    · rintro _ _ _ _ ⟨⟩ _
      rwa [again]
  | unfinished missed ran =>
    constructor
    · intro _ _ result last ran'
      rw [ran] at ran'
      cases ran'
    · rintro _ _ _ _ ⟨⟩
  | thrown missed ran =>
    constructor
    · intro _ _ result last ran'
      rw [ran] at ran'
      cases ran'
    · rintro _ _ _ _ ⟨⟩
  | noPlan missed ran nothing =>
    constructor
    · intro _ _ result last ran' planned
      cases ran.symm.trans ran'
      exact absurd nothing planned
    · rintro _ _ _ _ ⟨⟩ planned
      exact absurd rfl planned
  | undefined missed ran planned lost =>
    obtain ⟨_, last, ended⟩ := enough_of_search implies ran planned
    simp only [cachePlan, storedStates, Option.isNone_none, ↓reduceIte, ended, cacheStates, ← List.cons_append,
      List.getLast?_concat] at lost
    cases lost
  | @made found _ result missed ran planned stored =>
    obtain ⟨valid, last, ended⟩ := enough_of_search implies ran planned
    have missed' : (planner.findPlan initialState meter.goalState []).1 = [] := by rw [missed]
    have found' : (planner.findPlan initialState meter.goalState []).2 = found := by rw [missed]
    rw [← found'] at stored
    have round := findPlan_stored missed' ended valid planned stored
    constructor
    · intro trips _ result' last' ran' _ ended'
      cases ran.symm.trans ran'
      cases ended.symm.trans ended'
      exact round.mp (trips _ _ _ rfl planned)
    · rintro stays _ _ _ ⟨⟩ _
      exact round.mpr (stays missed' result last ran planned ended)

/-- From a state of scalars, in exact arithmetic, only plans stored for the goal at
distance 0 are in the way. -/
theorem staysFound_iff_of_scalars {planner : CachingPlanner ℚ} {initialState goalState : State ℚ} {cost : ℚ}
    {values : ℚ → Prop} (exact : ExactOn values) (within : initialState.Within values)
    (scalars : ∀ entry ∈ initialState.data, entry.2.size = 1) :
    StaysFound planner initialState goalState cost ↔ (goalState.setCost cost).hash = goalState.hash ∧
      planner.statesCaches.finds goalState = true ∧ 0 < (planner.nearest initialState goalState).nearDistance := by
  have own : NumericStateComparer.distance initialState initialState = 0 := by
    apply NumericStateComparer.distance_self scalars
    intro entry member
    exact (State.find?_eq_some_iff exact within (within entry member).1).mpr member
  constructor
  · intro stays
    have nearer := stays.nearer
    rw [own] at nearer
    exact ⟨stays.hash, stays.finds, of_decide_eq_true nearer⟩
  · rintro ⟨hash, finds, positive⟩
    refine ⟨hash, finds, ?_, ?_⟩
    · have open_ : le (planner.nearest initialState goalState).nearDistance (lit 0) = false :=
        decide_eq_false (not_le_of_gt positive)
      rw [Nearest.stopped, open_, Bool.and_false]
    · rw [own]
      exact decide_eq_true positive

theorem comparerStateMeter_implies (goalState : State F) (state : State F)
    (enough : (comparerStateMeter goalState).enough state = .ok true) :
    NumericStateComparer.enough state (comparerStateMeter goalState).goalState = true :=
  Except.ok.inj enough

theorem roundTrip_walker : RoundTrips (walker 1) (place 1) (comparerStateMeter (place 2)) 10 := by
  apply (roundTrip_iff (walker 1) (place 1) (comparerStateMeter (place 2)) 10 (comparerStateMeter_implies _)).mpr
  intro _ result last ran _ ended
  have costs : ((walker 1).search (place 1) (comparerStateMeter (place 2)) none 10).map (fun outcome =>
      outcome.toOption.bind fun result => (result.pStates.getD []).getLast?.map fun last =>
        decide (((place 2).setCost last.cost).hash = (place 2).hash)) = some (some true) := by decide +kernel
  simp only [ran, Option.map_some, Except.toOption, Option.bind_some, ended, Option.some.injEq,
    decide_eq_true_eq] at costs
  exact ⟨costs, by decide +kernel, by decide +kernel, by decide +kernel⟩

/-- The walk leaves its goal at cost 2: it is stored where no lookup at cost 1
comes. -/
theorem roundTrip_fails : ¬ ∀ planner : CachingPlanner Float32, Lifetime AnyCall planner →
    ∀ initialState meter fuel, initialState.data ≠ [] → (∀ entry ∈ initialState.data, entry.2.size = 1) →
      (∀ state, meter.enough state = .ok true → NumericStateComparer.enough state meter.goalState = true) →
      RoundTrips planner initialState meter fuel := by
  intro trips
  have lifetime : Lifetime AnyCall (walker 2) :=
    Lifetime.calls .new (show new.calls [.planningActions [walk 2]] = some (walker 2) from rfl)
  have round := trips (walker 2) lifetime (place 1) (comparerStateMeter (place 2)) 10 (by decide +kernel)
    (by decide +kernel) (comparerStateMeter_implies _)
  have answers : (((walker 2).makePlanCached (place 1) (comparerStateMeter (place 2)) [] none 10).1.actions.length,
      (((walker 2).makePlanCached (place 1) (comparerStateMeter (place 2)) [] none 10).2.findPlan (place 1)
        (place 2).clone []).1.length) = (1, 0) := by decide +kernel
  unfold RoundTrips at round
  generalize (walker 2).makePlanCached (place 1) (comparerStateMeter (place 2)) [] none 10 = outcome at round answers
  obtain ⟨outcome, planner'⟩ := outcome
  obtain ⟨one, none⟩ := Prod.mk.inj answers
  cases outcome with
  | returned actions given =>
    apply round actions given planner' rfl
    · exact List.ne_nil_of_length_eq_add_one one
    · exact List.eq_nil_of_length_eq_zero none
  | thrown e => cases one
  | undefined => cases one
  | unfinished => cases one

end CachingPlanner

end Goap
