import Goap.AS3.CachedSession

namespace Goap.AS3

open NumberOps Foundation

variable {N Other : Type} [ToString Other] [NumberOps N] [Coercions N Other] {planner : Planner N Other}
  {meter : PlanningStateMeter N Other} {initialState goalState : IWriteState N Other} {world world' : World N Other}
  {hash : UInt32} {statesPlan : StatesPlan} {retPlan : Nat}

namespace NumericStateComparer

omit [NumberOps N] in
theorem enough_congr {state other : IWriteState N Other} (same : state.view.at? = other.view.at?)
    (goalState : IWriteState N Other) : enough state goalState = enough other goalState := by
  have read : state.toState.at? = other.toState.at? := same
  simp only [enough, read]

end NumericStateComparer

namespace Planner

/-- A state that `findPlan` takes for itself without looking further. -/
def Recognised (initialState : IWriteState N Other) : Prop :=
  let near : Near N := ⟨NumericStateComparer.distance initialState initialState, none⟩
  lt near.nearDistance (number 1) = true ∧ near.close = true

theorem searchPlans_single {rest : List (IWriteState N Other)} (recognised : Recognised initialState)
    (stored : (world.statesOf statesPlan.states).dropLast = initialState :: rest) :
    (searchPlans world initialState [statesPlan] ⟨number 1, none⟩).found = some (statesPlan, 0) := by
  obtain ⟨below, close⟩ := recognised
  dsimp only at below
  have near : searchStates initialState statesPlan (initialState :: rest) 0 ⟨number 1, none⟩ =
      ⟨NumericStateComparer.distance initialState initialState, some (statesPlan, 0)⟩ := by
    unfold searchStates
    dsimp only
    rw [if_pos below]
    exact if_pos close
  unfold searchPlans
  dsimp only
  rw [stored, near]
  split <;> rfl

omit [Coercions N Other] in
theorem Executes.split {view : View N Other} {done rest : List (ActionRef N Other)} {views views' : List (View N Other)}
    (whole : Executes view (done ++ rest) views) (begun : Executes view done views') :
    ∃ more, views = views' ++ more ∧ Executes (views'.getLastD view) rest more := by
  induction begun generalizing views with
  | nil => exact ⟨views, rfl, whole⟩
  | cons _ effect _ ih =>
    cases whole with
    | cons _ effect' whole =>
      cases Except.ok.inj (effect.symm.trans effect')
      obtain ⟨more, same, left⟩ := ih whole
      refine ⟨more, by rw [same, List.cons_append], ?_⟩
      rwa [List.getLastD_cons]

omit [Coercions N Other] in
theorem at?_executeActions_of_executes {actions : List (ActionRef N Other)} {views : List (View N Other)}
    (reads : ∀ action ∈ actions, action.Reads) (executes : Executes initialState.view actions views)
    (pool : ObjectPool (IWriteState N Other)) :
    (executeActions actions initialState pool).1.view.at? = (views.getLastD initialState.view).at? := by
  obtain ⟨done, rest, views', split, trace, halts, reached, _⟩ :=
    executeLoop_spec reads { (initialState.clone pool).1 with cost := initialState.cost } initialState.cost
      (initialState.clone pool).2
  rw [view_begun] at trace halts reached
  rw [split] at executes
  obtain ⟨more, same, left⟩ := executes.split trace
  cases left with
  | nil =>
    rw [List.append_nil] at same
    rw [same]
    exact (at?_executeActions ..).trans (congrArg View.at? reached)
  | cons allowed effect _ => exact absurd effect (halts _ allowed)

omit [Coercions N Other] in
/-- What is put into the cache where nothing was. -/
theorem planAndStore_vacant {vector fuel id : Nat} (inside : vector < world.states.length)
    (vacant : world.plannings goalState.toState.hash.1 = [])
    (ended : planAndStore planner meter world initialState goalState retPlan vector fuel = some (.ok (some id, world'))) :
    world'.plannings goalState.toState.hash.1 = [⟨vector, id⟩] ∧
      ∃ rest, (world'.statesOf vector).dropLast = initialState :: rest := by
  unfold planAndStore at ended
  obtain ⟨made, _, answered⟩ := Option.map_eq_some_iff.mp ended
  cases made with
  | error e => cases answered
  | ok result =>
    dsimp only at answered
    cases found : result.actionsArray with
    | none => simp [found] at answered
    | some actions =>
      rw [found] at answered
      simp only [store] at answered
      split at answered
      · cases answered
      · cases answered
        refine ⟨?_, ?_⟩
        · rw [plannings_cacheStates, if_pos rfl]
          exact congrArg (· ++ [_]) vacant
        · rename_i last _
          have inside' : vector < ({ world with heap := result.search.heap }.setPlan retPlan actions).states.length := inside
          have stored := congrArg List.dropLast (World.statesOf_setStates_self inside'
            ((initialState :: (result.states.getD []).dropLast) ++ [{ goalState with cost := last.cost }]))
          rw [List.dropLast_concat] at stored
          exact ⟨_, stored⟩

/-- What a call leaves in the cache that has found nothing there. -/
theorem makePlanCached_vacant {actionsArray states : Option Nat} {fuel id : Nat} (sound : CacheSound planner world)
    (fresh : Fresh world actionsArray states) (vacant : world.plannings meter.goalState.toState.hash.1 = [])
    (ended : makePlanCached planner meter world initialState actionsArray states fuel = some (.ok (some id, world'))) :
    ∃ vector rest, world'.plannings meter.goalState.toState.hash.1 = [⟨vector, id⟩] ∧
      (world'.statesOf vector).dropLast = initialState :: rest := by
  have cloned := hash_clone meter.goalState world.heap.statePool
  unfold makePlanCached at ended
  dsimp only at ended
  generalize meter.goalState.clone world.heap.statePool = copy at cloned ended
  obtain ⟨goalState, statePool⟩ := copy
  dsimp only at cloned ended
  have keeps₁ : Keeps 0 world (world.withStatePool statePool) := .withHeap world _
  have sound₁ : CacheSound planner (world.withStatePool statePool) :=
    sound.keeps keeps₁ rfl (sound.session.statePool statePool)
  have fresh₁ : Fresh (world.withStatePool statePool) actionsArray states := ⟨fresh.plan, fresh.states⟩
  have made := planVector_spec sound₁ fresh₁
  unfold findPlan at ended
  generalize planVector (world.withStatePool statePool) actionsArray = taken at made ended
  obtain ⟨retPlan, world₁⟩ := taken
  obtain ⟨inside, empty, heap, caches, vectors, _, _⟩ := made
  have vacant₁ : world₁.plannings goalState.toState.hash.1 = [] := by
    rw [cloned, World.plannings, caches]
    exact vacant
  have nothing : findPlanIn world₁ initialState goalState retPlan = .ok world₁ := by
    unfold findPlanIn
    rw [vacant₁]
    rfl
  dsimp only at ended
  rw [nothing] at ended
  simp only [Except.map, empty, List.isEmpty_nil, if_true] at ended
  rw [← cloned]
  cases states with
  | some vector =>
    obtain ⟨bound, _⟩ := fresh.states vector rfl
    have bound₁ : vector < world₁.states.length := vectors ▸ bound
    obtain ⟨cached, rest, begins⟩ := planAndStore_vacant bound₁ vacant₁ ended
    exact ⟨vector, rest, cached, begins⟩
  | none =>
    have bound : world₁.states.length < world₁.newStates.2.states.length := by simp [World.newStates]
    obtain ⟨cached, rest, begins⟩ := planAndStore_vacant bound vacant₁ ended
    exact ⟨_, rest, cached, begins⟩

/-- What is cached alone under the goal's hash is found from the state that it begins with. -/
theorem makePlanCached_single {actionsArray states : Option Nat} {rest : List (IWriteState N Other)}
    {views : List (View N Other)} {final : IWriteState N Other} (recognised : Recognised initialState)
    (sound : CacheSound planner world) (readable : Readable planner meter) (fresh : Fresh world actionsArray states)
    (cached : world.plannings meter.goalState.toState.hash.1 = [statesPlan])
    (begins : (world.statesOf statesPlan.states).dropLast = initialState :: rest)
    (executes : Executes initialState.view (world.plan statesPlan.plan) views)
    (ended : (views.getLastD initialState.view).at? = final.view.at?)
    (enough : NumericStateComparer.enough final (meter.goalState.clone world.heap.statePool).1 = true) (fuel : Nat) :
    ∃ again world', makePlanCached planner meter world initialState actionsArray states fuel =
        some (.ok (some again, world')) ∧ world'.plan again = world.plan statesPlan.plan := by
  have own : statesPlan ∈ world.plannings meter.goalState.toState.hash.1 := cached ▸ List.mem_singleton_self _
  have entry := sound.entries _ statesPlan own
  have reads : ∀ action ∈ world.plan statesPlan.plan, action.Reads := fun action member =>
    readable.actions action (entry.known action member)
  have cloned := hash_clone meter.goalState world.heap.statePool
  unfold makePlanCached
  dsimp only
  generalize meter.goalState.clone world.heap.statePool = copy at cloned enough ⊢
  obtain ⟨goalState, statePool⟩ := copy
  dsimp only at cloned enough ⊢
  have keeps₁ : Keeps 0 world (world.withStatePool statePool) := .withHeap world _
  have sound₁ : CacheSound planner (world.withStatePool statePool) :=
    sound.keeps keeps₁ rfl (sound.session.statePool statePool)
  have fresh₁ : Fresh (world.withStatePool statePool) actionsArray states := ⟨fresh.plan, fresh.states⟩
  have made := planVector_spec sound₁ fresh₁
  unfold findPlan
  generalize planVector (world.withStatePool statePool) actionsArray = taken at made ⊢
  obtain ⟨retPlan, world₁⟩ := taken
  obtain ⟨inside, _, heap, caches, vectors, _, keeps⟩ := made
  have plan : world₁.plan statesPlan.plan = world.plan statesPlan.plan := ((keeps 0).kept _ statesPlan own).1
  have cached₁ : world₁.plannings goalState.toState.hash.1 = [statesPlan] := by
    rw [cloned, World.plannings, caches]
    exact cached
  have begins₁ : (world₁.statesOf statesPlan.states).dropLast = initialState :: rest := by
    rw [World.statesOf, vectors]
    exact begins
  have nearest := searchPlans_single recognised begins₁
  have reached := at?_executeActions_of_executes reads executes world₁.heap.statePool
  have accepted : NumericStateComparer.enough
      (executeActions (world.plan statesPlan.plan) initialState world₁.heap.statePool).1 goalState = true :=
    (NumericStateComparer.enough_congr (reached.trans ended) goalState).trans enough
  have found : ∃ world₂, findPlanIn world₁ initialState goalState retPlan = .ok world₂ ∧
      world₂.plan retPlan = world.plan statesPlan.plan := by
    unfold findPlanIn
    simp only [cached₁, nearest, plan, Nat.not_lt_zero, if_false, List.drop_zero, accepted, if_true]
    exact ⟨_, rfl, World.plan_setPlan_self inside _⟩
  obtain ⟨world₂, found, same⟩ := found
  have occupied : (world₂.plan retPlan).isEmpty = false := by
    rw [same]
    simpa using entry.nonempty
  refine ⟨retPlan, world₂, ?_, same⟩
  simp [found, Except.map, occupied]

end Planner

/-- The worlds that cached calls for goals of other hashes lead to, also calls that throw. -/
inductive Later (planner : Planner N Other) (hash : UInt32) (world : World N Other) : World N Other → Prop where
  | now : Later planner hash world world
  | callers {world' world'' : World N Other} (before : Later planner hash world world') (callers : Callers world' world'') :
      Later planner hash world world''
  | called {world' : World N Other} {meter : PlanningStateMeter N Other} {initialState : IWriteState N Other}
      {actionsArray states : Option Nat} {fuel : Nat} {answer : Except (Thrown (World N Other)) (Option Nat × World N Other)}
      (before : Later planner hash world world') (readable : planner.Readable meter)
      (fresh : Fresh world' actionsArray states) (other : meter.goalState.toState.hash.1 ≠ hash)
      (ended : planner.makePlanCached meter world' initialState actionsArray states fuel = some answer) :
      Later planner hash world (after answer)

theorem Later.session {later : World N Other} (passed : Later planner hash world later)
    (session : CachedSession planner world) : CachedSession planner later := by
  induction passed with
  | now => exact session
  | callers _ callers ih => exact .callers ih callers
  | called _ readable fresh _ ended ih => exact .called ih readable fresh ended

/-- Nothing that is cached under the hash is touched. -/
theorem Later.kept {later : World N Other} (passed : Later planner hash world later)
    (session : CachedSession planner world) : later.plannings hash = world.plannings hash ∧
      ∀ statesPlan ∈ world.plannings hash, later.plan statesPlan.plan = world.plan statesPlan.plan ∧
        later.statesOf statesPlan.states = world.statesOf statesPlan.states := by
  suffices one : ∀ {hash' : UInt32} {world' world'' : World N Other}, Keeps hash' world' world'' →
      world''.plannings hash = world'.plannings hash →
      (world'.plannings hash = world.plannings hash ∧
        ∀ statesPlan ∈ world.plannings hash, world'.plan statesPlan.plan = world.plan statesPlan.plan ∧
          world'.statesOf statesPlan.states = world.statesOf statesPlan.states) →
      world''.plannings hash = world.plannings hash ∧
        ∀ statesPlan ∈ world.plannings hash, world''.plan statesPlan.plan = world.plan statesPlan.plan ∧
          world''.statesOf statesPlan.states = world.statesOf statesPlan.states by
    induction passed with
    | now => exact ⟨rfl, fun _ _ => ⟨rfl, rfl⟩⟩
    | callers _ callers ih =>
      have keeps : Keeps 0 _ _ := callers.keeps
      refine one keeps ?_ ih
      rw [World.plannings, callers.caches]
      rfl
    | called before readable fresh other ended ih =>
      have keeps := (Planner.makePlanCached_spec (before.session session).sound readable fresh ended).2
      exact one keeps (keeps.others hash (Ne.symm other)) ih
  intro hash' world' world'' keeps same before
  obtain ⟨cached, vectors⟩ := before
  refine ⟨same.trans cached, ?_⟩
  intro statesPlan member
  obtain ⟨plan, states⟩ := keeps.kept hash statesPlan (cached.symm ▸ member)
  obtain ⟨plan', states'⟩ := vectors statesPlan member
  exact ⟨plan.trans plan', states.trans states'⟩

/-- A plan that a call has made for a goal under whose hash nothing was cached answers every later
call from the same state for the same goal, whatever has been planned for other goals since, also
in calls that threw. The state must be recognised by the comparer, and what is enough for the
meter must be enough for the comparer too. -/
theorem CachedSession.found_again {later : World N Other} {meter' : PlanningStateMeter N Other}
    {actionsArray states actionsArray' states' : Option Nat} {fuel id : Nat} (session : CachedSession planner world)
    (readable : planner.Readable meter) (fresh : Fresh world actionsArray states)
    (vacant : world.plannings meter.goalState.toState.hash.1 = [])
    (ended : planner.makePlanCached meter world initialState actionsArray states fuel = some (.ok (some id, world')))
    (passed : Later planner meter.goalState.toState.hash.1 world' later) (readable' : planner.Readable meter')
    (fresh' : Fresh later actionsArray' states')
    (goal : meter'.goalState.toState.hash.1 = meter.goalState.toState.hash.1)
    (recognised : Planner.Recognised initialState)
    (accepted : ∀ state, meter.enough state = .ok true →
      NumericStateComparer.enough state (meter'.goalState.clone later.heap.statePool).1 = true) (fuel' : Nat) :
    ∃ again world'', planner.makePlanCached meter' later initialState actionsArray' states' fuel' =
        some (.ok (some again, world'')) ∧ world''.plan again = world'.plan id := by
  have session' : CachedSession planner (after (.ok (some id, world'))) := .called session readable fresh ended
  obtain ⟨cached, kept⟩ := passed.kept session'
  obtain ⟨vector, rest, own, begins⟩ := Planner.makePlanCached_vacant session.sound fresh vacant ended
  have answered := (Planner.makePlanCached_spec session.sound readable fresh ended).1
  obtain ⟨plan, same⟩ := kept ⟨vector, id⟩ (own ▸ List.mem_singleton_self _)
  dsimp only at plan same
  cases answered with
  | cached _ member _ _ _ _ =>
    rw [hash_clone, vacant] at member
    cases member
  | @planned _ _ final _ _ leads enough =>
    have followed := leads.1
    rw [← List.reverse_reverse (world'.plan id)] at followed
    obtain ⟨executes, last⟩ := Planner.executes_of_follow followed
    rw [List.reverse_reverse] at executes
    obtain ⟨state, rfl⟩ := exists_of_onView enough
    rw [onView_view readable.enough] at enough
    rw [← plan] at executes ⊢
    rw [← plan] at last
    exact Planner.makePlanCached_single recognised (passed.session session').sound readable' fresh'
      (goal.symm ▸ cached.trans own) (same ▸ begins) executes (congrArg View.at? last) (accepted state enough) fuel'

/-- A copy of the goal from a pool in which nothing but the floor was known. -/
theorem accepted_toFloor {goal : ℕ} {pool : ObjectPool (IWriteState ℚ ℕ)}
    (known : ((pool.getNew IWriteState.new).1.toState.map.keys.all fun key => key = "floor") = true)
    (positive : goal ≠ 0) (state : IWriteState ℚ ℕ) (enough : (toFloor goal).enough state = .ok true) :
    NumericStateComparer.enough state ((toFloor goal).goalState.clone pool).1 = true := by
  have there : floorOf state = goal := by simpa [toFloor] using enough
  have reached : state.toState.at? "floor" = some (.other goal) := by
    unfold floorOf at there
    split at there
    · rename_i floor found
      rw [found, there]
    · exact absurd there.symm positive
  have values := congrArg View.at? ((toFloor goal).goalState.view_clone pool)
  have wanted : ((toFloor goal).goalState.clone pool).1.toState.at? "floor" = some (.other goal) := by
    refine (congrFun values "floor").trans ?_
    simp [toFloor, onFloor, IWriteState.view, State.at?_put]
  refine List.all_eq_true.mpr ?_
  intro key member
  have own : key = "floor" := by
    rcases Object.mem_setMap.mp member with stale | given
    · simpa using List.all_eq_true.mp known key stale
    · by_contra other
      have absent : (toFloor goal).goalState.toState.at? key = none := by
        rw [toFloor, onFloor, State.at?_put, if_neg other]
        rfl
      rw [State.at?] at absent
      rw [absent] at given
      cases given
  rw [own, reached, wanted]
  simp [Coercions.looseEq]

/-- A first call for one floor and a second one for another. -/
theorem secondCall :
    ∃ world world' : World ℚ ℕ, (lift 3 [1, 2]).makePlanCached (toFloor 3) .new (onFloor 0) none none 9 =
        some (.ok (some 0, world)) ∧ (world.plan 0).length = 2 ∧
      (lift 3 [1, 2]).makePlanCached (toFloor 2) world (onFloor 0) none none 9 = some (.ok (some 1, world')) ∧
      ((world'.heap.statePool.getNew IWriteState.new).1.toState.map.keys.all fun key => key = "floor") = true := by
  have ran : (((lift 3 [1, 2]).makePlanCached (toFloor 3) .new (onFloor 0) none none 9).bind Except.toOption).bind
      (fun first => ((((lift 3 [1, 2]).makePlanCached (toFloor 2) first.2 (onFloor 0) none none 9).bind Except.toOption).map
        fun second => (first.1, (first.2.plan 0).length, second.1,
          (second.2.heap.statePool.getNew IWriteState.new).1.toState.map.keys.all fun key => key = "floor"))) =
      some (some 0, 2, some 1, true) := by decide +kernel
  obtain ⟨⟨answer, world⟩, answered, next⟩ := Option.bind_eq_some_iff.mp ran
  obtain ⟨⟨answer', world'⟩, answered', told⟩ := Option.map_eq_some_iff.mp next
  obtain ⟨made, ended, taken⟩ := Option.bind_eq_some_iff.mp answered
  obtain ⟨made', ended', taken'⟩ := Option.bind_eq_some_iff.mp answered'
  cases made with
  | error e => cases taken
  | ok made =>
    cases made' with
    | error e => cases taken'
    | ok made' =>
      cases taken
      cases taken'
      simp only [Prod.mk.injEq] at told
      exact ⟨world, world', by rw [ended, told.1], told.2.1, by rw [ended', told.2.2.1], told.2.2.2⟩

theorem CachedSession.found_again_lift :
    ∃ world world' again world'', (lift 3 [1, 2]).makePlanCached (toFloor 3) .new (onFloor 0) none none 9 =
        some (.ok (some 0, world)) ∧ (world.plan 0).length = 2 ∧
      (lift 3 [1, 2]).makePlanCached (toFloor 2) world (onFloor 0) none none 9 = some (.ok (some 1, world')) ∧
      (lift 3 [1, 2]).makePlanCached (toFloor 3) world' (onFloor 0) none none 0 = some (.ok (some again, world'')) ∧
      world''.plan again = world.plan 0 := by
  obtain ⟨world, world', ended, two, ended', known⟩ := secondCall
  have readable := lift_readable 3 [1, 2]
  have fresh : ∀ world : World ℚ ℕ, Fresh world none none := fun world => ⟨by simp, by simp⟩
  have other : (toFloor 2).goalState.toState.hash.1 ≠ (toFloor 3).goalState.toState.hash.1 := by decide +kernel
  have passed : Later (lift 3 [1, 2]) (toFloor 3).goalState.toState.hash.1 world (after (.ok (some 1, world'))) :=
    .called .now (readable 2) (fresh world) other ended'
  have recognised : Planner.Recognised (onFloor 0) := by constructor <;> decide +kernel
  obtain ⟨again, world'', found, same⟩ := CachedSession.found_again .new (readable 3) (fresh .new) rfl ended passed
    (readable 3) (fresh world') rfl recognised (accepted_toFloor known (by decide)) 0
  exact ⟨world, world', again, world'', ended, two, ended', found, same⟩

end Goap.AS3
