import Goap.Search.Covering

namespace Goap.Planner

open FloatOps Foundation

variable {F : Type} [FloatOps F] {planner : Planner F} {meter : PlanningStateMeter F} {initialState : State F}
  {search : Search F} {machine : TwoList (PathPtr F)} {values : F → Prop}

/-- Validators, executors and meter read the entries of a state only, and the
values of all reachable states are exact. Executors may set the cost. -/
structure ReadsEntries (values : F → Prop) (planner : Planner F) (meter : PlanningStateMeter F)
    (initialState : State F) : Prop where
  within : ∀ state, Reachable planner initialState state → state.Within values
  allowed : ∀ action ∈ planner.planningActions, ∀ state other, state.Within values →
    state.SameEntries other → action.canExecute state = action.canExecute other
  executed : ∀ action ∈ planner.planningActions, action.ExecutesByEntries values
  enough : ∀ state other, state.Within values → state.SameEntries other →
    meter.enough state = meter.enough other
  answers : ∀ state, Reachable planner initialState state → ∃ answer, meter.enough state = .ok answer
  measures : ∀ state, Reachable planner initialState state → ∃ distance, meter.distance state = .ok distance

/-- Reachable states with the same entries. -/
structure SameReachable (planner : Planner F) (initialState state other : State F) : Prop where
  left : Reachable planner initialState state
  right : Reachable planner initialState other
  entries : state.SameEntries other

theorem ReadsEntries.step (reads : ReadsEntries values planner meter initialState) {state other next : State F}
    (within : state.Within values) (same : state.SameEntries other) (step : Step planner state next) :
    ∃ next', Step planner other next' ∧ State.Alike next next' := by
  obtain ⟨action, member, allowed, executed⟩ := step
  rcases ((reads.executed action member).execute within same).cases with
    ⟨result, next', ran, ran', alike⟩ | ⟨e, failed, _⟩
  · cases ran.symm.trans executed
    rw [reads.allowed action member state other within same] at allowed
    exact ⟨next', ⟨action, member, allowed, ran'⟩, alike⟩
  · rw [executed] at failed
    cases failed

theorem ReadsEntries.coherent (reads : ReadsEntries values planner meter initialState) (exact : ExactOn values) :
    Coherent planner meter initialState (SameReachable planner initialState) where
  refl state reachable := ⟨reachable, reachable, .refl state⟩
  trans _ _ _ one two := ⟨one.left, two.right, one.entries.trans two.entries⟩
  equal _ _ left right equal :=
    ⟨left, right, (State.equals_iff_sameEntries exact (reads.within _ left) (reads.within _ right)).mp equal⟩
  step _ _ _ same step := by
    obtain ⟨next', step', alike⟩ := reads.step (reads.within _ same.left) same.entries step
    exact ⟨next', step', same.left.step step, same.right.step step', alike.same⟩
  enough _ _ same := reads.enough _ _ (reads.within _ same.left) same.entries

/-- The states that the planner's actions make of finitely many, with the initial one. -/
def candidates (planner : Planner F) (initialState : State F) (finite : List (State F)) : List (State F) :=
  initialState :: planner.planningActions.flatMap fun action =>
    finite.filterMap fun state => (action.execute state).toOption

theorem ReadsEntries.candidate (reads : ReadsEntries values planner meter initialState)
    {finite : List (State F)}
    (covers : ∀ state, Reachable planner initialState state → ∃ known ∈ finite, state.SameEntries known)
    {state : State F} (reachable : Reachable planner initialState state) :
    ∃ known ∈ candidates planner initialState finite, State.Alike state known := by
  rcases reachable.cases with rfl | ⟨before, earlier, step⟩
  · exact ⟨_, List.mem_cons_self, .refl _⟩
  · obtain ⟨known, present, same⟩ := covers before earlier
    obtain ⟨next', ⟨action, member, _, executed⟩, alike⟩ := reads.step (reads.within _ earlier) same step
    refine ⟨next', List.mem_cons_of_mem _ ?_, alike⟩
    apply List.mem_flatMap.mpr
    exact ⟨action, member, List.mem_filterMap.mpr ⟨known, present, by simp [executed, Except.toOption]⟩⟩

/-- No visited state is the lookup of a later one. -/
def Apart (search : Search F) : Prop :=
  search.visitedStates.Pairwise fun newer older => State.keyMatch newer older = false

/-- There is room for as many visited states as there are candidates. -/
theorem Covering.visited_le (reads : ReadsEntries values planner meter initialState) (exact : ExactOn values)
    {finite : List (State F)}
    (covers : ∀ state, Reachable planner initialState state → ∃ known ∈ finite, state.SameEntries known)
    {level : Nat → Nat} {depths : List (State F × Nat)}
    (covering : Covering level planner meter initialState search machine depths) (apart : Apart search) :
    search.visitedStates.length ≤ (candidates planner initialState finite).length := by
  have reachable : ∀ state ∈ search.visitedStates, Reachable planner initialState state := by
    intro state member
    rw [← covering.visited] at member
    obtain ⟨v, present, rfl⟩ := List.mem_map.mp member
    exact covering.reachable v present
  apply length_le_of_apart (R := State.Alike)
  · exact fun state member => reads.candidate covers (reachable state member)
  · apply apart.imp_of_mem
    intro newer older _ member different known _ left right
    have same : State.keyMatch newer older = true :=
      (left.same.trans right.same.symm).keyMatch exact (reads.within _ (reachable older member))
        (left.cost.trans right.cost.symm)
    rw [different] at same
    cases same

/-- What the main loop has left to do: candidates to visit and paths to pop. -/
def potential (planner : Planner F) (room : Nat) (search : Search F) (machine : TwoList (PathPtr F)) : Nat :=
  (room - search.visitedStates.length) * (planner.planningActions.length + 1) + machine.contents.length

theorem children_length_le (pathCost min : F) (state : State F) :
    (children planner meter pathCost min state).length ≤ planner.planningActions.length :=
  List.length_filterMap_le _ _

/-- From a covering search the main loop ends; it has found a plan exactly when
a goal is reachable. -/
theorem Covering.mainLoop (reads : ReadsEntries values planner meter initialState) (exact : ExactOn values)
    {finite : List (State F)}
    (covers : ∀ state, Reachable planner initialState state → ∃ known ∈ finite, state.SameEntries known)
    (pStates : Option (List (State F))) {depths : List (State F × Nat)}
    (covering : Covering (fun _ => 0) planner meter initialState search machine depths) (apart : Apart search)
    {fuel : Nat}
    (enoughFuel : potential planner (candidates planner initialState finite).length search machine < fuel) :
    ∃ result, mainLoop planner meter initialState [] pStates fuel search = some (.ok result) ∧
      (result.actionsArray ≠ [] ↔
        ∃ state, Reachable planner initialState state ∧ meter.enough state = .ok true) := by
  induction fuel generalizing search machine depths with
  | zero => exact absurd enoughFuel (Nat.not_lt_zero _)
  | succ fuel ih =>
    have measures : Measures planner meter initialState := fun state next reachable step =>
      reads.measures next (reachable.step step)
    have iteration := covering.searching.iteration meter
    rw [Planner.mainLoop]
    generalize loopStep planner meter initialState search = outcome at iteration ⊢
    cases iteration with
    | exhausted drained nothing =>
      refine ⟨_, rfl, fun planned => absurd rfl planned, ?_⟩
      rintro ⟨state, ⟨actions, states, trace, known, rfl⟩, enough⟩
      obtain ⟨pointer, waiting, _⟩ := covering.cuts (reads.coherent exact) (.const 0) trace known enough
      rw [drained] at waiting
      cases waiting
    | rejected pops seen nodes visited after =>
      have next := covering.rejected pops (fun _ _ => Nat.le_refl _) seen nodes visited after
      apply ih next
      · rwa [Apart, visited]
      · have popped := (popped_contents pops.pop).length_eq
        rw [List.length_cons] at popped
        unfold potential at enoughFuel ⊢
        rw [visited]
        omega
    | thrown pops failed =>
      obtain ⟨answer, answered⟩ := reads.answers _ (pops.leads.reachable covering.searching)
      rw [failed] at answered
      cases answered
    | reachedGoal pops fresh enough nodes after =>
      have reachable := pops.leads.reachable covering.searching
      obtain ⟨bound, states, trace, same⟩ := pops.leads
      rw [← nodes] at bound trace
      obtain ⟨result, found, actions, _⟩ := after.reportGoal trace pStates
      refine ⟨result, congrArg some found, fun _ => ⟨_, reachable, enough⟩, fun _ => ?_⟩
      rw [actions]
      exact Path.actionsTo_ne_nil bound
    | @expanded path machine' state pointers search' pops fresh notEnough spawned visited after =>
      have next := covering.expanded measures pops notEnough spawned visited after
      have apart' : Apart search' := by
        rw [Apart, visited]
        refine List.pairwise_cons.mpr ⟨?_, apart⟩
        simpa using fresh
      apply ih next apart'
      have room := next.visited_le reads exact covers apart'
      have popped := (popped_contents pops.pop).length_eq
      have spread := spawned.lines.length_eq.le.trans (children_length_le path.cost search.minDistance state)
      rw [visited, List.length_cons] at room
      rw [List.length_cons] at popped
      unfold potential at enoughFuel ⊢
      rw [visited, List.length_cons]
      obtain ⟨spare, split⟩ := Nat.exists_eq_add_of_le room
      have before : (candidates planner initialState finite).length - search.visitedStates.length = spare + 1 := by
        omega
      have left : (candidates planner initialState finite).length - (search.visitedStates.length + 1) = spare := by
        omega
      rw [before, Nat.succ_mul] at enoughFuel
      rw [left]
      simp only [TwoList.contents, List.length_append] at popped enoughFuel ⊢
      omega

/-- With finitely many reachable states the search ends, and it returns a plan
exactly when executable actions lead to a state that is enough. -/
theorem makePlan_complete (planner : Planner F) (meter : PlanningStateMeter F) (initialState : State F)
    (exact : ExactOn values) (reads : ReadsEntries values planner meter initialState)
    (notEnough : meter.enough initialState = .ok false) (finite : List (State F))
    (covers : ∀ state, Reachable planner initialState state → ∃ known ∈ finite, state.SameEntries known)
    (pStates : Option (List (State F))) :
    ∃ fuel result, makePlan planner meter initialState [] pStates fuel = some (.ok result) ∧
      (result.actionsArray ≠ [] ↔
        ∃ state, Reachable planner initialState state ∧ meter.enough state = .ok true) := by
  have measures : Measures planner meter initialState := fun state next reachable step =>
    reads.measures next (reachable.step step)
  obtain ⟨pointers, _, covering⟩ := start_covering (fun _ => 0) measures (by simp [notEnough])
  have apart : Apart (Planner.start planner meter initialState) := by
    rw [Apart, ← covering.visited]
    exact List.pairwise_singleton _ _
  exact ⟨_, covering.mainLoop reads exact covers pStates apart (Nat.lt_succ_self _)⟩

/-- The state that `raise` makes of the new state and of itself. -/
def raised : State ℚ := (State.new.put (.scalar 0) (.scalar 1)).setCost 2

theorem raiser_reachable {state : State ℚ} (reachable : Reachable raiser .new state) :
    state = .new ∨ state = raised := by
  apply reachable.invariant (.inl rfl)
  rintro state next before ⟨action, member, _, executed⟩
  cases List.mem_singleton.mp member
  cases executed
  right
  rcases before with rfl | rfl
  · exact State.ext_data (by decide +kernel) rfl
  · exact State.ext_data (by decide +kernel) rfl

theorem raiser_readsEntries : ReadsEntries IsBit raiser raisedMeter .new where
  within state reachable := by
    rcases raiser_reachable reachable with rfl | rfl
    · exact State.within_new
    · exact State.Within.put State.within_new isBit_scalar.1 isBit_scalar.2
  allowed action member state other _ _ := by
    cases List.mem_singleton.mp member
    rfl
  executed action member := by
    cases List.mem_singleton.mp member
    exact PlanningAction.raise_executesByEntries
  enough state other within same := by
    simp only [raisedMeter, same.find?_eq exactOn_isBit within isBit_scalar.1]
  answers state _ := ⟨_, rfl⟩
  measures state _ := ⟨_, rfl⟩

theorem makePlan_complete_raiser :
    ∃ fuel result, makePlan raiser raisedMeter .new [] none fuel = some (.ok result) ∧
      (result.actionsArray ≠ [] ↔
        ∃ state, Reachable raiser .new state ∧ raisedMeter.enough state = .ok true) :=
  makePlan_complete raiser raisedMeter .new exactOn_isBit raiser_readsEntries (by decide +kernel)
    [.new, raised] (by
      intro state reachable
      rcases raiser_reachable reachable with rfl | rfl
      · exact ⟨_, by simp, .refl _⟩
      · exact ⟨_, by simp, .refl _⟩) none

end Goap.Planner
