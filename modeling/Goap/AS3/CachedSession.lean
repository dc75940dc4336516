import Goap.AS3.PlanCache

namespace Goap.AS3

open NumberOps Foundation

variable {N Other : Type} [ToString Other] [NumberOps N] [Coercions N Other] {planner : Planner N Other}
  {meter : PlanningStateMeter N Other} {initialState goalState : IWriteState N Other} {world world' : World N Other}
  {hash : UInt32} {statesPlan : StatesPlan} {retPlan : Nat}

/-- What `cacheStates` asks for: one state more than actions, the last one the goal under whose
hash the plan is kept. Each stored state but the goal is what the actions before it make of the
first one. -/
structure Entry (planner : Planner N Other) (world : World N Other) (hash : UInt32) (statesPlan : StatesPlan) : Prop where
  trace : ∃ initial views, Planner.Executes initial (world.plan statesPlan.plan) views ∧
    (world.statesOf statesPlan.states).dropLast.map IWriteState.view = (initial :: views).dropLast
  length : (world.statesOf statesPlan.states).length = (world.plan statesPlan.plan).length + 1
  goal : ∃ goal, (world.statesOf statesPlan.states).getLast? = some goal ∧ goal.toState.hash.1 = hash
  nonempty : world.plan statesPlan.plan ≠ []
  known : ∀ action ∈ world.plan statesPlan.plan, action ∈ planner._planningActions
  inside : statesPlan.plan < world.plans.length ∧ statesPlan.states < world.states.length

/-- Every plan in the cache has its shape. -/
structure CacheSound (planner : Planner N Other) (world : World N Other) : Prop where
  session : Session world.heap
  entries : ∀ hash, ∀ statesPlan ∈ world.plannings hash, Entry planner world hash statesPlan

/-- The vectors of a caller, which the cache does not hold. That of the states is empty. -/
structure Fresh (world : World N Other) (actionsArray states : Option Nat) : Prop where
  plan : ∀ id ∈ actionsArray, id < world.plans.length ∧
    ∀ hash, ∀ statesPlan ∈ world.plannings hash, statesPlan.plan ≠ id
  states : ∀ id ∈ states, id < world.states.length ∧ world.statesOf id = [] ∧
    ∀ hash, ∀ statesPlan ∈ world.plannings hash, statesPlan.states ≠ id

omit [Coercions N Other] in
theorem Entry.frame (entry : Entry planner world hash statesPlan)
    (plan : world'.plan statesPlan.plan = world.plan statesPlan.plan)
    (states : world'.statesOf statesPlan.states = world.statesOf statesPlan.states)
    (plans : world.plans.length ≤ world'.plans.length) (vectors : world.states.length ≤ world'.states.length) :
    Entry planner world' hash statesPlan := by
  obtain ⟨trace, length, goal, nonempty, known, inside⟩ := entry
  refine ⟨?_, ?_, ?_, ?_, ?_, Nat.lt_of_lt_of_le inside.1 plans, Nat.lt_of_lt_of_le inside.2 vectors⟩
  · rwa [plan, states]
  · rwa [plan, states]
  · rwa [states]
  · rwa [plan]
  · rwa [plan]

/-- The plans that are cached stay what they are, and plans are added under one hash only. -/
structure Keeps (hash : UInt32) (world world' : World N Other) : Prop where
  plans : world.plans.length ≤ world'.plans.length
  vectors : world.states.length ≤ world'.states.length
  grown : ∀ other, world.plannings other <+: world'.plannings other
  others : ∀ other ≠ hash, world'.plannings other = world.plannings other
  kept : ∀ other, ∀ statesPlan ∈ world.plannings other, world'.plan statesPlan.plan = world.plan statesPlan.plan ∧
    world'.statesOf statesPlan.states = world.statesOf statesPlan.states

section

omit [NumberOps N] [Coercions N Other]

theorem Keeps.of_caches (caches : world'._statesCaches = world._statesCaches)
    (plans : world.plans.length ≤ world'.plans.length) (vectors : world.states.length ≤ world'.states.length)
    (kept : ∀ other, ∀ statesPlan ∈ world.plannings other, world'.plan statesPlan.plan = world.plan statesPlan.plan ∧
      world'.statesOf statesPlan.states = world.statesOf statesPlan.states) : Keeps hash world world' where
  plans := plans
  vectors := vectors
  grown other := by
    rw [World.plannings, World.plannings, caches]
  others other _ := by rw [World.plannings, World.plannings, caches]
  kept := kept

theorem Keeps.withHeap (world : World N Other) (heap : Heap N Other) : Keeps hash world { world with heap } :=
  .of_caches rfl (Nat.le_refl _) (Nat.le_refl _) fun _ _ _ => ⟨rfl, rfl⟩

theorem Keeps.trans {world'' : World N Other} (first : Keeps hash world world') (second : Keeps hash world' world'') :
    Keeps hash world world'' where
  plans := first.plans.trans second.plans
  vectors := first.vectors.trans second.vectors
  grown other := (first.grown other).trans (second.grown other)
  others other apart := (second.others other apart).trans (first.others other apart)
  kept other statesPlan member := by
    obtain ⟨plan, states⟩ := first.kept other statesPlan member
    obtain ⟨plan', states'⟩ := second.kept other statesPlan ((first.grown other).subset member)
    exact ⟨plan'.trans plan, states'.trans states⟩

theorem Keeps.setPlan {id : Nat} (apart : ∀ hash, ∀ statesPlan ∈ world.plannings hash, statesPlan.plan ≠ id)
    (plan : List (ActionRef N Other)) : Keeps hash world (world.setPlan id plan) :=
  .of_caches rfl (Nat.le_of_eq List.length_set.symm) (Nat.le_refl _) fun other statesPlan member =>
    ⟨World.plan_setPlan_ne (apart other statesPlan member) plan, rfl⟩

theorem Keeps.setVectors {id vector : Nat} (apart : ∀ hash, ∀ statesPlan ∈ world.plannings hash, statesPlan.plan ≠ id)
    (apart' : ∀ hash, ∀ statesPlan ∈ world.plannings hash, statesPlan.states ≠ vector) (plan : List (ActionRef N Other))
    (states : List (IWriteState N Other)) : Keeps hash world ((world.setPlan id plan).setStates vector states) :=
  .of_caches rfl (Nat.le_of_eq List.length_set.symm) (Nat.le_of_eq List.length_set.symm) fun other statesPlan member =>
    ⟨World.plan_setPlan_ne (apart other statesPlan member) plan,
      World.statesOf_setStates_ne (apart' other statesPlan member) states⟩

theorem Keeps.cacheStates (world : World N Other) (goalState : IWriteState N Other) (states plan : Nat) :
    Keeps goalState.toState.hash.1 world (Planner.cacheStates world goalState states plan) where
  plans := Nat.le_refl _
  vectors := Nat.le_refl _
  grown other := by
    rw [Planner.plannings_cacheStates]
    split
    · exact List.prefix_append _ _
    · exact List.prefix_refl _
  others other apart := by rw [Planner.plannings_cacheStates, if_neg apart]
  kept _ _ _ := ⟨rfl, rfl⟩

end

omit [Coercions N Other] in
theorem Entry.keeps {hash' : UInt32} (entry : Entry planner world hash statesPlan) (member : statesPlan ∈ world.plannings hash)
    (keeps : Keeps hash' world world') : Entry planner world' hash statesPlan :=
  entry.frame (keeps.kept hash statesPlan member).1 (keeps.kept hash statesPlan member).2 keeps.plans keeps.vectors

omit [Coercions N Other] in
theorem CacheSound.keeps (sound : CacheSound planner world) (keeps : Keeps hash world world')
    (caches : world'._statesCaches = world._statesCaches) (session : Session world'.heap) : CacheSound planner world' where
  session := session
  entries other statesPlan member := by
    rw [World.plannings, caches] at member
    exact (sound.entries other statesPlan member).keeps member keeps

omit [Coercions N Other] in
theorem hash_clone (state : IWriteState N Other) (pool : ObjectPool (IWriteState N Other)) :
    (state.clone pool).1.toState.hash.1 = state.toState.hash.1 := by
  rw [hash_eq_hashOf, hash_eq_hashOf, state.view_clone pool]

/-- The world after a call, also where it throws. -/
def after {A : Type} : Except (Thrown (World N Other)) (A × World N Other) → World N Other
  | .ok (_, world) => world
  | .error thrown => thrown.left

/-- How a cached call ends: without a plan, with one that was made for the meter, with the end of
a stored one that was tried out against the goal, or with what the meter throws. -/
inductive Answered (planner : Planner N Other) (meter : PlanningStateMeter N Other)
    (initialState goalState : IWriteState N Other) (world : World N Other) :
    Except (Thrown (World N Other)) (Option Nat × World N Other) → Prop where
  | null {world' : World N Other} (sound : CacheSound planner world') :
      Answered planner meter initialState goalState world (.ok (none, world'))
  | planned {world' : World N Other} {id : Nat} {final : View N Other} (sound : CacheSound planner world')
      (nonempty : world'.plan id ≠ [])
      (leads : (planner.graph meter).Leads initialState.view (world'.plan id) final)
      (enough : onView meter.enough final = .ok true) :
      Answered planner meter initialState goalState world (.ok (some id, world'))
  | cached {world' : World N Other} {id n : Nat} {statesPlan : StatesPlan} (sound : CacheSound planner world')
      (member : statesPlan ∈ world.plannings goalState.toState.hash.1) (bound : n < (world.plan statesPlan.plan).length)
      (same : world'.plan id = (world.plan statesPlan.plan).drop n)
      (statePool : ObjectPool (IWriteState N Other))
      (accepted : NumericStateComparer.enough
        (Planner.executeActions (world'.plan id) initialState statePool).1 goalState = true) :
      Answered planner meter initialState goalState world (.ok (some id, world'))
  | thrown {view : View N Other} {thrown : Thrown (World N Other)} (sound : CacheSound planner thrown.left)
      (failed : onView meter.enough view = .error thrown.error) :
      Answered planner meter initialState goalState world (.error thrown)

namespace Planner

/-- What is nearest is a state of the plan, or what was nearest before. -/
theorem searchStates_spec (initialState : IWriteState N Other) (statePlan : StatesPlan)
    (states : List (IWriteState N Other)) (nState : Nat) (near : Near N) :
    (searchStates initialState statePlan states nState near).found = near.found ∨
      ∃ n < nState + states.length, (searchStates initialState statePlan states nState near).found = some (statePlan, n) := by
  induction states generalizing nState near with
  | nil => exact .inl rfl
  | cons storedState rest ih =>
    have later : ∀ near : Near N, near.found = some (statePlan, nState) →
        ∃ n < nState + (rest.length + 1),
          (searchStates initialState statePlan rest (nState + 1) near).found = some (statePlan, n) := by
      intro near found
      rcases ih (nState + 1) near with same | ⟨n, bound, found⟩
      · exact ⟨nState, by omega, same.trans found⟩
      · exact ⟨n, by omega, found⟩
    unfold searchStates
    dsimp only
    rw [List.length_cons]
    split
    · split
      · exact .inr ⟨nState, by omega, rfl⟩
      · exact .inr (later _ rfl)
    · rcases ih (nState + 1) near with same | ⟨n, bound, found⟩
      · exact .inl same
      · exact .inr ⟨n, by omega, found⟩

/-- What is found is a state of one of the plans, and not its last. -/
theorem searchPlans_spec (world : World N Other) (initialState : IWriteState N Other) (plannings : List StatesPlan)
    (near : Near N) :
    (searchPlans world initialState plannings near).found = near.found ∨
      ∃ statePlan ∈ plannings, ∃ n < (world.statesOf statePlan.states).dropLast.length,
        (searchPlans world initialState plannings near).found = some (statePlan, n) := by
  induction plannings generalizing near with
  | nil => exact .inl rfl
  | cons statePlan rest ih =>
    unfold searchPlans
    dsimp only
    have first := searchStates_spec initialState statePlan (world.statesOf statePlan.states).dropLast 0 near
    rw [Nat.zero_add] at first
    have own : ∀ {found : Option (StatesPlan × Nat)},
        (∃ n < (world.statesOf statePlan.states).dropLast.length, found = some (statePlan, n)) →
        ∃ other ∈ statePlan :: rest, ∃ n < (world.statesOf other.states).dropLast.length, found = some (other, n) :=
      fun found => ⟨statePlan, List.mem_cons_self, found⟩
    split
    · exact first.imp_right own
    · rcases ih (searchStates initialState statePlan (world.statesOf statePlan.states).dropLast 0 near) with
        same | ⟨other, member, found⟩
      · rw [same]
        exact first.imp_right own
      · exact .inr ⟨other, List.mem_cons_of_mem _ member, found⟩

end Planner

/-- Only the plan in one vector and the pool of states have changed. -/
structure OnlyPlan (retPlan : Nat) (world world' : World N Other) : Prop where
  caches : world'._statesCaches = world._statesCaches
  states : world'.states = world.states
  plans : world'.plans.length = world.plans.length
  kept : ∀ other ≠ retPlan, world'.plan other = world.plan other
  heap : ∃ statePool, world'.heap = { world.heap with statePool }

omit [NumberOps N] [Coercions N Other] in
theorem OnlyPlan.setPlan (world : World N Other) (retPlan : Nat) (plan : List (ActionRef N Other))
    (statePool : ObjectPool (IWriteState N Other)) :
    OnlyPlan retPlan world ((world.setPlan retPlan plan).withStatePool statePool) where
  caches := rfl
  states := rfl
  plans := List.length_set
  kept _ apart := World.plan_setPlan_ne apart plan
  heap := ⟨statePool, rfl⟩

omit [NumberOps N] [Coercions N Other] in
theorem OnlyPlan.keeps (only : OnlyPlan retPlan world world')
    (apart : ∀ hash, ∀ statesPlan ∈ world.plannings hash, statesPlan.plan ≠ retPlan) : Keeps hash world world' :=
  .of_caches only.caches (Nat.le_of_eq only.plans.symm) (Nat.le_of_eq (congrArg List.length only.states.symm))
    fun other statesPlan member => by
      refine ⟨only.kept _ (apart other statesPlan member), ?_⟩
      rw [World.statesOf, World.statesOf, only.states]

namespace Planner

/-- `findPlan` answers with the end of a stored plan that it has tried out, or with nothing. It
does not throw, as every stored plan has its shape. -/
theorem findPlanIn_spec (initialState goalState : IWriteState N Other)
    (entries : ∀ statesPlan ∈ world.plannings goalState.toState.hash.1,
      Entry planner world goalState.toState.hash.1 statesPlan)
    (inside : retPlan < world.plans.length) (empty : world.plan retPlan = []) :
    ∃ world', findPlanIn world initialState goalState retPlan = .ok world' ∧ OnlyPlan retPlan world world' ∧
      (world'.plan retPlan = [] ∨ ∃ statesPlan ∈ world.plannings goalState.toState.hash.1,
        ∃ n < (world.plan statesPlan.plan).length, world'.plan retPlan = (world.plan statesPlan.plan).drop n ∧
          NumericStateComparer.enough (executeActions ((world.plan statesPlan.plan).drop n) initialState
            world.heap.statePool).1 goalState = true) := by
  unfold findPlanIn
  dsimp only
  have searched := searchPlans_spec world initialState (world.plannings goalState.toState.hash.1) ⟨number 1, none⟩
  generalize (searchPlans world initialState (world.plannings goalState.toState.hash.1) ⟨number 1, none⟩).found =
    found at searched ⊢
  cases found with
  | none => exact ⟨world, rfl, ⟨rfl, rfl, rfl, fun _ _ => rfl, world.heap.statePool, rfl⟩, .inl empty⟩
  | some nearest =>
    rcases searched with nothing | ⟨statesPlan, member, n, bound, same⟩
    · cases nothing
    · cases same
      have entry := entries statesPlan member
      rw [List.length_dropLast, entry.length, Nat.add_sub_cancel] at bound
      simp only [if_neg (Nat.not_lt_of_lt bound)]
      generalize ran : executeActions ((world.plan statesPlan.plan).drop n) initialState world.heap.statePool = tried
      obtain ⟨reachedState, statePool⟩ := tried
      dsimp only
      split
      · rename_i accepted
        refine ⟨_, rfl, .setPlan world retPlan _ statePool, .inr ⟨statesPlan, member, n, bound, ?_, ?_⟩⟩
        · exact World.plan_setPlan_self inside _
        · rw [ran]
          exact accepted
      · refine ⟨_, rfl, ⟨rfl, rfl, ?_, ?_, statePool, rfl⟩, .inl ?_⟩
        · exact List.length_set.trans List.length_set
        · intro other apart
          rw [World.plan_setPlan_ne apart]
          exact World.plan_setPlan_ne apart _
        · apply World.plan_setPlan_self
          exact inside.trans_eq List.length_set.symm

omit [Coercions N Other] in
theorem Executes.snoc {initial final next : View N Other} {actions : List (ActionRef N Other)}
    {views : List (View N Other)} {action : ActionRef N Other} (trace : Executes initial actions views)
    (last : views.getLastD initial = final) (allowed : action.allowed final = .ok true)
    (effect : action.effect final = .ok next) : Executes initial (actions ++ [action]) (views ++ [next]) := by
  induction trace with
  | nil =>
    simp only [List.getLastD_nil] at last
    subst last
    exact .cons allowed effect .nil
  | cons allowed' effect' _ ih => exact .cons allowed' effect' (ih (by rwa [List.getLastD_cons] at last))

omit [Coercions N Other] in
theorem executes_of_follow {initial final : View N Other} {actions : List (ActionRef N Other)}
    (followed : (graph planner meter).follow initial actions.reverse = some final) :
    Executes initial actions.reverse (along initial actions) ∧ (along initial actions).getLastD initial = final := by
  induction actions generalizing final with
  | nil => exact ⟨.nil, Option.some.inj followed⟩
  | cons action before ih =>
    have reached := outcome_of_follow followed
    rw [List.reverse_cons, KeyedGraph.follow_append] at followed
    obtain ⟨middle, earlier, last⟩ := Option.bind_eq_some_iff.mp followed
    obtain ⟨next, moved, same⟩ := Option.bind_eq_some_iff.mp last
    cases same
    obtain ⟨child, measuring, rfl⟩ := Option.map_eq_some_iff.mp moved
    obtain ⟨allowed, effect, _⟩ := measured_spec measuring
    obtain ⟨trace, ended⟩ := ih earlier
    simp only [along, reached, List.reverse_cons]
    exact ⟨trace.snoc ended allowed effect, by simp⟩

omit [Coercions N Other] in
/-- The vector for the plan is empty, and no stored plan is in it. -/
theorem planVector_spec {actionsArray states : Option Nat} (sound : CacheSound planner world)
    (fresh : Fresh world actionsArray states) :
    let (retPlan, world') := planVector world actionsArray
    retPlan < world'.plans.length ∧ world'.plan retPlan = [] ∧ world'.heap = world.heap ∧
      world'._statesCaches = world._statesCaches ∧ world'.states = world.states ∧
      (∀ hash, ∀ statesPlan ∈ world.plannings hash, statesPlan.plan ≠ retPlan) ∧ ∀ hash, Keeps hash world world' := by
  cases actionsArray with
  | none =>
    refine ⟨by simp, by simp [World.plan], rfl, rfl, rfl, ?_, ?_⟩
    · exact fun hash statesPlan member => Nat.ne_of_lt (sound.entries hash statesPlan member).inside.1
    · refine fun _ => .of_caches rfl (by simp) (Nat.le_refl _) ?_
      intro hash statesPlan member
      have inside := (sound.entries hash statesPlan member).inside.1
      exact ⟨by simp only [World.plan, List.getElem?_append_left inside], rfl⟩
  | some id =>
    obtain ⟨inside, apart⟩ := fresh.plan id rfl
    exact ⟨inside.trans_eq List.length_set.symm, World.plan_setPlan_self inside [], rfl, rfl, rfl, apart,
      fun _ => .setPlan apart []⟩

omit [Coercions N Other] in
theorem stateVector_spec {states : Option Nat} (sound : CacheSound planner world)
    (fresh : Fresh world (some retPlan) states) :
    let (vector, world') := stateVector world states
    Fresh world' (some retPlan) (some vector) ∧ world'.heap = world.heap ∧
      world'._statesCaches = world._statesCaches ∧ world'.plans = world.plans ∧ ∀ hash, Keeps hash world world' := by
  cases states with
  | some vector => exact ⟨fresh, rfl, rfl, rfl, fun _ => .withHeap world world.heap⟩
  | none =>
    refine ⟨⟨fresh.plan, ?_⟩, rfl, rfl, rfl, ?_⟩
    · intro id same
      cases same
      refine ⟨by simp, by simp [World.statesOf], ?_⟩
      exact fun hash statesPlan member => Nat.ne_of_lt (sound.entries hash statesPlan member).inside.2
    · refine fun _ => .of_caches rfl (Nat.le_refl _) (by simp) ?_
      intro hash statesPlan member
      have inside := (sound.entries hash statesPlan member).inside.2
      exact ⟨rfl, by simp only [World.statesOf, List.getElem?_append_left inside]⟩

/-- `findPlan` keeps the cache, and its answer is the end of a stored plan or empty. -/
theorem findPlan_spec {actionsArray states : Option Nat} (sound : CacheSound planner world)
    (fresh : Fresh world actionsArray states) (initialState goalState : IWriteState N Other) :
    ∃ retPlan world', findPlan world initialState goalState actionsArray = .ok (retPlan, world') ∧
      CacheSound planner world' ∧ (∀ hash, Keeps hash world world') ∧ Fresh world' (some retPlan) states ∧
      (world'.plan retPlan = [] ∨ ∃ statesPlan ∈ world.plannings goalState.toState.hash.1,
        ∃ n < (world.plan statesPlan.plan).length, world'.plan retPlan = (world.plan statesPlan.plan).drop n ∧
          ∃ statePool, NumericStateComparer.enough (executeActions (world'.plan retPlan) initialState statePool).1
            goalState = true) := by
  have vector := planVector_spec sound fresh
  unfold findPlan
  generalize planVector world actionsArray = made at vector ⊢
  obtain ⟨retPlan, world₁⟩ := made
  obtain ⟨inside, empty, heap, caches, states', apart, keeps⟩ := vector
  have plannings : world₁.plannings = world.plannings := by
    funext hash
    rw [World.plannings, caches]
    rfl
  have sound₁ : CacheSound planner world₁ := sound.keeps (keeps 0) caches (heap ▸ sound.session)
  obtain ⟨world₂, found, only, answer⟩ := findPlanIn_spec initialState goalState (sound₁.entries _) inside empty
  have keeps₂ : ∀ hash, Keeps hash world₁ world₂ := fun _ => only.keeps (plannings ▸ apart)
  have plannings₂ : world₂.plannings = world.plannings := by
    rw [← plannings]
    funext hash
    rw [World.plannings, only.caches]
    rfl
  refine ⟨retPlan, world₂, by simp [found, Except.map], ?_, fun hash => (keeps hash).trans (keeps₂ hash), ⟨?_, ?_⟩, ?_⟩
  · refine sound₁.keeps (keeps₂ 0) only.caches ?_
    obtain ⟨statePool, same⟩ := only.heap
    rw [same]
    exact sound₁.session.statePool statePool
  · intro id same
    cases same
    exact ⟨inside.trans_eq only.plans.symm, plannings₂ ▸ apart⟩
  · intro id same
    obtain ⟨bound, nothing, apart⟩ := fresh.states id same
    rw [World.statesOf, only.states, states', plannings₂]
    exact ⟨bound, nothing, apart⟩
  · rcases answer with nothing | ⟨statesPlan, member, n, bound, same, accepted⟩
    · exact .inl nothing
    · rw [plannings] at member
      rw [((keeps 0).kept _ statesPlan member).1] at bound same accepted
      exact .inr ⟨statesPlan, member, n, bound, same, _, by rw [same]; exact accepted⟩

omit [Coercions N Other] in
/-- A plan that `makePlan` has made gets its shape in the cache. -/
theorem store_spec {vector : Nat} {trail : Trail N Other} {reached : List (IWriteState N Other)}
    {stored : Option Nat × World N Other} (sound : CacheSound planner world)
    (insidePlan : retPlan < world.plans.length)
    (apartPlan : ∀ hash, ∀ statesPlan ∈ world.plannings hash, statesPlan.plan ≠ retPlan)
    (insideStates : vector < world.states.length)
    (apartStates : ∀ hash, ∀ statesPlan ∈ world.plannings hash, statesPlan.states ≠ vector)
    (leads : (graph planner meter).Leads initialState.view trail.actions.reverse trail.view)
    (some' : trail.actions ≠ [])
    (passed : reached.map IWriteState.view = along initialState.view trail.actions)
    (ended : store world initialState goalState retPlan vector trail.actions.reverse reached = .ok stored) :
    stored.1 = some retPlan ∧ CacheSound planner stored.2 ∧ Keeps goalState.toState.hash.1 world stored.2 ∧
      stored.2.plan retPlan = trail.actions.reverse := by
  obtain ⟨trace, _⟩ := executes_of_follow leads.1
  have length := (along_spec leads.1).1
  have count := congrArg List.length passed
  rw [List.length_map, length] at count
  have positive := List.length_pos_iff.mpr some'
  unfold store at ended
  split at ended
  · cases ended
  · rename_i last _
    cases ended
    let clean : IWriteState N Other := { goalState with cost := last.cost }
    let states := initialState :: (reached.dropLast ++ [clean])
    have split : states = (initialState :: reached.dropLast) ++ [clean] := rfl
    have plan : ((world.setPlan retPlan trail.actions.reverse).setStates vector states).plan retPlan =
        trail.actions.reverse := World.plan_setPlan_self insidePlan _
    have vectors : ((world.setPlan retPlan trail.actions.reverse).setStates vector states).statesOf vector = states :=
      World.statesOf_setStates_self insideStates _
    have keeps : Keeps goalState.toState.hash.1 world
        (cacheStates ((world.setPlan retPlan trail.actions.reverse).setStates vector states) clean vector retPlan) :=
      (Keeps.setVectors apartPlan apartStates _ states).trans (.cacheStates _ clean vector retPlan)
    refine ⟨rfl, ⟨sound.session, ?_⟩, keeps, plan⟩
    intro hash statesPlan member
    rw [plannings_cacheStates] at member
    split at member
    · rename_i same
      rcases List.mem_append.mp member with before | own
      · exact (sound.entries hash statesPlan before).keeps before keeps
      · rw [List.mem_singleton] at own
        subst own
        refine ⟨⟨initialState.view, along initialState.view trail.actions, ?_, ?_⟩, ?_, ⟨clean, ?_, same.symm⟩, ?_, ?_,
          ?_, ?_⟩
        · rw [← plan] at trace
          exact trace
        · have views : along initialState.view trail.actions ≠ [] := by
            rw [← List.length_pos_iff, length]
            exact positive
          have shown : states.dropLast.map IWriteState.view =
              (initialState.view :: along initialState.view trail.actions).dropLast := by
            rw [split, List.dropLast_concat, List.dropLast_cons_of_ne_nil views, ← passed, List.map_cons, List.map_dropLast]
          rw [← vectors] at shown
          exact shown
        · have total : states.length = trail.actions.reverse.length + 1 := by
            simp only [states, List.length_cons, List.length_append, List.length_dropLast, List.length_nil,
              List.length_reverse]
            omega
          rw [← vectors, ← plan] at total
          exact total
        · have ended : states.getLast? = some clean := by rw [split, List.getLast?_concat]
          rw [← vectors] at ended
          exact ended
        · rw [← List.reverse_ne_nil_iff, ← plan] at some'
          exact some'
        · intro action inside
          exact leads.2 action (plan ▸ inside)
        · exact insidePlan.trans_eq List.length_set.symm
        · exact insideStates.trans_eq List.length_set.symm
    · exact (sound.entries hash statesPlan member).keeps member keeps

/-- Planning anew keeps the shape of what is cached. -/
theorem planAndStore_spec {vector fuel : Nat} {answer : Except (Thrown (World N Other)) (Option Nat × World N Other)}
    (sound : CacheSound planner world) (readable : Readable planner meter)
    (fresh : Fresh world (some retPlan) (some vector)) (empty : world.plan retPlan = []) (before : World N Other)
    (ended : planAndStore planner meter world initialState goalState retPlan vector fuel = some answer) :
    Answered planner meter initialState goalState before answer ∧ Keeps goalState.toState.hash.1 world (after answer) := by
  obtain ⟨insidePlan, apartPlan⟩ := fresh.plan retPlan rfl
  obtain ⟨insideStates, nothing, apartStates⟩ := fresh.states vector rfl
  unfold planAndStore at ended
  rw [empty, nothing] at ended
  obtain ⟨made, planned, rfl⟩ := Option.map_eq_some_iff.mp ended
  cases made with
  | error thrown =>
    obtain ⟨view, failed⟩ := sound.session.thrown_by_meter readable planned
    have keeps : Keeps goalState.toState.hash.1 world _ :=
      (Keeps.setVectors apartPlan apartStates (thrown.left.actionsArray.getD []) (thrown.left.states.getD [])).trans
        (.withHeap _ thrown.left.heap)
    exact ⟨.thrown (sound.keeps keeps rfl (.thrown sound.session readable planned)) failed, keeps⟩
  | ok result =>
    have keeps : Keeps goalState.toState.hash.1 world { world with heap := result.search.heap } :=
      .withHeap world result.search.heap
    have kept : CacheSound planner { world with heap := result.search.heap } :=
      sound.keeps keeps rfl (.planned sound.session readable planned)
    dsimp only
    cases found : result.actionsArray with
    | none => exact ⟨.null kept, keeps⟩
    | some actions =>
      obtain ⟨trail, same, leads, enough, apart, passed⟩ := sound.session.trail_of_plan readable planned found
      rw [Option.getD_some, List.append_nil] at same
      subst same
      cases listed : result.states with
      | none => simp [listed] at passed
      | some reached =>
        rw [listed] at passed
        simp only [Option.map_some, List.map_nil, List.append_nil, Option.some.injEq] at passed
        have some' : trail.actions ≠ [] := by
          intro nothing
          have same := leads.1
          simp only [nothing, List.reverse_nil, KeyedGraph.follow, Option.some.injEq] at same
          exact apart (by rw [← same])
        simp only [Option.getD_some]
        cases stored : store { world with heap := result.search.heap } initialState goalState retPlan vector
            trail.actions.reverse reached with
        | error e =>
          unfold store at stored
          split at stored
          · rename_i vacant
            rw [List.getLast?_eq_none_iff] at vacant
            have length := (along_spec leads.1).1
            rw [← passed, vacant] at length
            exact absurd (List.length_eq_zero_iff.mp length.symm) some'
          · cases stored
        | ok stored' =>
          obtain ⟨id, world'⟩ := stored'
          obtain ⟨told, sound', keeps', plan⟩ :=
            store_spec kept insidePlan apartPlan insideStates apartStates leads some' passed stored
          simp only at told sound' keeps' plan
          subst told
          have nonempty : world'.plan retPlan ≠ [] := by
            rw [plan]
            simpa using some'
          rw [← plan] at leads
          exact ⟨.planned sound' nonempty leads enough, keeps.trans keeps'⟩

/-- A cached call keeps the shape of what is cached, and ends in one of four ways. -/
theorem makePlanCached_spec {actionsArray states : Option Nat} {fuel : Nat}
    {answer : Except (Thrown (World N Other)) (Option Nat × World N Other)} (sound : CacheSound planner world)
    (readable : Readable planner meter) (fresh : Fresh world actionsArray states)
    (ended : makePlanCached planner meter world initialState actionsArray states fuel = some answer) :
    Answered planner meter initialState (meter.goalState.clone world.heap.statePool).1 world answer ∧
      Keeps meter.goalState.toState.hash.1 world (after answer) := by
  rw [← hash_clone meter.goalState world.heap.statePool]
  unfold makePlanCached at ended
  dsimp only at ended
  generalize meter.goalState.clone world.heap.statePool = cloned at ended ⊢
  obtain ⟨goalState, statePool⟩ := cloned
  have keeps₁ : Keeps goalState.toState.hash.1 world (world.withStatePool statePool) := .withHeap world _
  have sound₁ : CacheSound planner (world.withStatePool statePool) :=
    sound.keeps keeps₁ rfl (sound.session.statePool statePool)
  have fresh₁ : Fresh (world.withStatePool statePool) actionsArray states := ⟨fresh.plan, fresh.states⟩
  obtain ⟨retPlan, world₂, found, sound₂, keeps₂, fresh₂, told⟩ := findPlan_spec sound₁ fresh₁ initialState goalState
  have keeps := keeps₁.trans (keeps₂ _)
  rw [found] at ended
  simp only at ended
  split at ended
  · rename_i vacant
    rw [List.isEmpty_iff] at vacant
    have vector := stateVector_spec sound₂ fresh₂
    generalize stateVector world₂ states = made at vector ended
    obtain ⟨vector, world₃⟩ := made
    obtain ⟨fresh₃, heap, caches, plans, keeps₃⟩ := vector
    have sound₃ : CacheSound planner world₃ := sound₂.keeps (keeps₃ 0) caches (heap ▸ sound₂.session)
    have vacant₃ : world₃.plan retPlan = [] := by
      rw [World.plan, plans]
      exact vacant
    obtain ⟨answered, keeps₄⟩ := planAndStore_spec sound₃ readable fresh₃ vacant₃ world ended
    exact ⟨answered, (keeps.trans (keeps₃ _)).trans keeps₄⟩
  · rename_i occupied
    cases ended
    rcases told with vacant | ⟨statesPlan, member, n, bound, same, tried, accepted⟩
    · rw [vacant] at occupied
      exact absurd rfl occupied
    · exact ⟨.cached sound₂ member bound same tried accepted, keeps⟩

end Planner

/-- What callers may do between two calls: anything to the pool of states, and to vectors that the
cache does not hold. -/
structure Callers (world world' : World N Other) : Prop where
  caches : world'._statesCaches = world._statesCaches
  heap : ∃ statePool, world'.heap = { world.heap with statePool }
  plans : world.plans.length ≤ world'.plans.length
  vectors : world.states.length ≤ world'.states.length
  kept : ∀ hash, ∀ statesPlan ∈ world.plannings hash, world'.plan statesPlan.plan = world.plan statesPlan.plan ∧
    world'.statesOf statesPlan.states = world.statesOf statesPlan.states

omit [NumberOps N] [Coercions N Other] in
theorem Callers.keeps (callers : Callers world world') : Keeps hash world world' :=
  .of_caches callers.caches callers.plans callers.vectors callers.kept

/-- The worlds that cached calls of one planner lead to, also calls that throw. -/
inductive CachedSession (planner : Planner N Other) : World N Other → Prop where
  | new : CachedSession planner .new
  | callers {world world' : World N Other} (before : CachedSession planner world) (callers : Callers world world') :
      CachedSession planner world'
  | called {world : World N Other} {meter : PlanningStateMeter N Other} {initialState : IWriteState N Other}
      {actionsArray states : Option Nat} {fuel : Nat} {answer : Except (Thrown (World N Other)) (Option Nat × World N Other)}
      (before : CachedSession planner world) (readable : planner.Readable meter) (fresh : Fresh world actionsArray states)
      (ended : planner.makePlanCached meter world initialState actionsArray states fuel = some answer) :
      CachedSession planner (after answer)

theorem Answered.sound {answer : Except (Thrown (World N Other)) (Option Nat × World N Other)}
    (answered : Answered planner meter initialState goalState world answer) : CacheSound planner (after answer) := by
  cases answered with
  | null sound => exact sound
  | planned sound _ _ _ => exact sound
  | cached sound _ _ _ _ _ => exact sound
  | thrown sound _ => exact sound

theorem CachedSession.sound (session : CachedSession planner world) : CacheSound planner world := by
  induction session with
  | new =>
    refine ⟨.new, ?_⟩
    intro hash statesPlan member
    simp [World.new, World.plannings] at member
  | callers _ callers ih =>
    have keeps : Keeps 0 _ _ := callers.keeps
    obtain ⟨statePool, same⟩ := callers.heap
    exact ih.keeps keeps callers.caches (same ▸ ih.session.statePool statePool)
  | called _ readable fresh ended ih => exact (Planner.makePlanCached_spec ih readable fresh ended).1.sound

/-- Whatever was cached before, a plan in the cache has its goal's hash, one state more than
actions, and its states are what its actions make of the first of them. -/
theorem CachedSession.plans_shaped (session : CachedSession planner world) :
    ∀ hash, ∀ statesPlan ∈ world.plannings hash, Entry planner world hash statesPlan :=
  session.sound.entries

def throws {Left A : Type} : Except Left A → Bool
  | .ok _ => false
  | .error _ => true

/-- A first call, without vectors, from nothing on. -/
theorem firstCall :
    ∃ world : World ℚ ℕ, (lift 3 [1, 2]).makePlanCached (toFloor 3) .new (onFloor 0) none none 9 =
        some (.ok (some 0, world)) ∧
      (world.plannings (toFloor 3).goalState.toState.hash.1).length = 1 ∧ world.plans.length = 1 ∧
      (world.plan 0).length = 2 ∧
      throws (Planner.findPlan world (onFloor 0) (toFloor 3).goalState (some 0)) = false ∧
      throws (Planner.findPlan world (onFloor 2) (toFloor 3).goalState (some 0)) = true := by
  have ran : (((lift 3 [1, 2]).makePlanCached (toFloor 3) .new (onFloor 0) none none 9).bind Except.toOption).map
      (fun ended => (ended.1, (ended.2.plannings (toFloor 3).goalState.toState.hash.1).length, ended.2.plans.length,
        (ended.2.plan 0).length, throws (Planner.findPlan ended.2 (onFloor 0) (toFloor 3).goalState (some 0)),
        throws (Planner.findPlan ended.2 (onFloor 2) (toFloor 3).goalState (some 0)))) =
      some (some 0, 1, 1, 2, false, true) := by decide +kernel
  obtain ⟨⟨answer, world⟩, answered, told⟩ := Option.map_eq_some_iff.mp ran
  obtain ⟨made, ended, taken⟩ := Option.bind_eq_some_iff.mp answered
  cases made with
  | error e => cases taken
  | ok made =>
    cases taken
    simp only [Prod.mk.injEq] at told
    exact ⟨world, by rw [ended, told.1], told.2⟩

theorem CachedSession.plans_shaped_lift :
    ∃ world : World ℚ ℕ, CachedSession (lift 3 [1, 2]) world ∧
      ∃ statesPlan ∈ world.plannings (toFloor 3).goalState.toState.hash.1, (world.plan statesPlan.plan).length = 2 ∧
        Entry (lift 3 [1, 2]) world (toFloor 3).goalState.toState.hash.1 statesPlan := by
  obtain ⟨world, ended, length, vectors, two, _⟩ := firstCall
  have session : CachedSession (lift 3 [1, 2]) (after (.ok (some 0, world))) :=
    .called .new (lift_readable 3 [1, 2] 3) ⟨by simp, by simp⟩ ended
  obtain ⟨statesPlan, member⟩ := List.exists_mem_of_length_pos (length ▸ Nat.one_pos)
  have entry := CachedSession.plans_shaped session _ statesPlan member
  have only : statesPlan.plan = 0 := Nat.lt_one_iff.mp (vectors ▸ entry.inside.1)
  exact ⟨world, session, statesPlan, member, only ▸ two, entry⟩

/-- A cached call never throws but what the meter throws. A plan that it answers with was made
for the meter, or it is the end of a stored plan that, tried out, reaches the goal. -/
theorem CachedSession.answered {actionsArray states : Option Nat} {fuel : Nat}
    {answer : Except (Thrown (World N Other)) (Option Nat × World N Other)} (session : CachedSession planner world)
    (readable : planner.Readable meter) (fresh : Fresh world actionsArray states)
    (ended : planner.makePlanCached meter world initialState actionsArray states fuel = some answer) :
    Answered planner meter initialState (meter.goalState.clone world.heap.statePool).1 world answer :=
  (Planner.makePlanCached_spec session.sound readable fresh ended).1

theorem CachedSession.answered_lift :
    ∃ world : World ℚ ℕ, Answered (lift 3 [1, 2]) (toFloor 3) (onFloor 0) ((toFloor 3).goalState.clone .new).1 .new
      (.ok (some 0, world)) := by
  obtain ⟨world, ended, _⟩ := firstCall
  exact ⟨world, CachedSession.answered .new (lift_readable 3 [1, 2] 3) ⟨by simp, by simp⟩ ended⟩

/-- A caller must not give back the vector that holds the plans of a goal: `findPlan` empties it
before it looks, finds nothing in it or throws, and leaves nothing of these plans. -/
theorem Planner.findPlan_shared {id : Nat} (inside : id < world.plans.length)
    (shared : ∀ statesPlan ∈ world.plannings goalState.toState.hash.1, statesPlan.plan = id) :
    let ended := findPlan world initialState goalState (some id)
    (∀ retPlan world', ended = .ok (retPlan, world') → retPlan = id) ∧ (after ended).plan id = [] ∧
      ∀ statesPlan ∈ (after ended).plannings goalState.toState.hash.1, (after ended).plan statesPlan.plan = [] := by
  have inside' : id < (world.setPlan id []).plans.length := inside.trans_eq List.length_set.symm
  have vacant : (world.setPlan id []).plan id = [] := World.plan_setPlan_self inside []
  dsimp only
  generalize told : findPlan world initialState goalState (some id) = ended
  suffices both : (∀ retPlan world', ended = .ok (retPlan, world') → retPlan = id) ∧ (after ended).plan id = [] ∧
      (after ended)._statesCaches = world._statesCaches by
    obtain ⟨same, nothing, caches⟩ := both
    refine ⟨same, nothing, ?_⟩
    intro statesPlan member
    rw [World.plannings, caches] at member
    rw [shared statesPlan member]
    exact nothing
  subst told
  unfold findPlan planVector findPlanIn
  dsimp only
  have searched := searchPlans_spec (world.setPlan id []) initialState (world.plannings goalState.toState.hash.1)
    ⟨number 1, none⟩
  have same : (world.setPlan id []).plannings goalState.toState.hash.1 =
      world.plannings goalState.toState.hash.1 := rfl
  rw [same]
  generalize (searchPlans (world.setPlan id []) initialState (world.plannings goalState.toState.hash.1)
    ⟨number 1, none⟩).found = found at searched ⊢
  rcases searched with nothing | ⟨statesPlan, member, n, _, near⟩
  · simp only at nothing
    subst nothing
    exact ⟨by simp [Except.map], vacant, rfl⟩
  · subst near
    simp only [shared statesPlan member, vacant, List.length_nil, List.drop_nil]
    split
    · exact ⟨by simp [Except.map], vacant, rfl⟩
    · split
      · exact ⟨by simp [Except.map], World.plan_setPlan_self inside' [], rfl⟩
      · exact ⟨by simp [Except.map], World.plan_setPlan_self (inside'.trans_eq List.length_set.symm) [], rfl⟩

theorem Planner.findPlan_shared_lift :
    ∃ world, (lift 3 [1, 2]).makePlanCached (toFloor 3) .new (onFloor 0) none none 9 = some (.ok (some 0, world)) ∧
      (world.plan 0).length = 2 ∧
      (throws (findPlan world (onFloor 0) (toFloor 3).goalState (some 0)) = false ∧
        (after (findPlan world (onFloor 0) (toFloor 3).goalState (some 0))).plan 0 = []) ∧
      throws (findPlan world (onFloor 2) (toFloor 3).goalState (some 0)) = true ∧
        (after (findPlan world (onFloor 2) (toFloor 3).goalState (some 0))).plan 0 = [] := by
  obtain ⟨world, ended, _, vectors, length, calm, broken⟩ := firstCall
  have session : CachedSession (lift 3 [1, 2]) (after (.ok (some 0, world))) :=
    .called .new (lift_readable 3 [1, 2] 3) ⟨by simp, by simp⟩ ended
  have shared : ∀ statesPlan ∈ world.plannings (toFloor 3).goalState.toState.hash.1, statesPlan.plan = 0 := by
    intro statesPlan member
    exact Nat.lt_one_iff.mp (vectors ▸ (session.sound.entries _ statesPlan member).inside.1)
  exact ⟨world, ended, length, ⟨calm, (Planner.findPlan_shared (by omega) shared).2.1⟩, broken,
    (Planner.findPlan_shared (by omega) shared).2.1⟩

end Goap.AS3
