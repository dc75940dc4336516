import Goap.Search.Frontier

namespace Goap.Planner

open FloatOps Foundation

variable {F : Type} [FloatOps F] {planner : Planner F} {meter : PlanningStateMeter F} {initialState : State F}
  {search : Search F} {machine : TwoList (PathPtr F)}

theorem Explored.searching (explored : Explored planner meter initialState search) :
    ∃ machine, Searching planner initialState search machine := by
  induction explored with
  | start =>
    obtain ⟨pointers, _, _, searching⟩ := start_searching planner meter initialState
    exact ⟨_, searching⟩
  | step _ ran ih =>
    obtain ⟨machine, searching⟩ := ih
    have iteration := searching.iteration meter
    rw [ran] at iteration
    cases iteration with
    | rejected _ _ _ _ after => exact ⟨_, after⟩
    | expanded _ _ _ _ _ after => exact ⟨_, after⟩

/-- The report at a goal: the actions of the path and the states along it. -/
theorem Searching.reportGoal (searching : Searching planner initialState search machine) {path : PathPtr F}
    {states : List (State F)} (trace : Executes initialState (Path.actionsTo search.nodes path.id) states)
    (pStates : Option (List (State F))) :
    ∃ result, Planner.reportGoal initialState [] pStates path search = .ok result ∧
      result.actionsArray = Path.actionsTo search.nodes path.id ∧ result.bReachedGoal = true ∧
      result.pStates = pStates.map (states ++ ·) := by
  unfold Planner.reportGoal
  rw [Path.getActions_eq, List.append_nil]
  cases pStates with
  | none => exact ⟨_, rfl, rfl, rfl, rfl⟩
  | some given =>
    obtain ⟨agree, _⟩ := Path.getStates_sound path.id (memoLaws_initial initialState search.nodes) rfl
      searching.memos given
    rw [trace.traceActions] at agree
    dsimp only
    generalize Path.getStates search.nodes path.id initialState given search.memo = outcome at agree
    obtain ⟨outcome, memo⟩ := outcome
    rcases agree.cases with ⟨_, _, found, same, own, split, aligned⟩ | ⟨_, _, failed⟩
    · cases same
      simp only at found
      subst found
      refine ⟨_, rfl, rfl, rfl, ?_⟩
      rw [split, List.forall₂_eq_eq_eq.le _ _ aligned]
      rfl
    · cases failed

/-- What `makePlan` returns: nothing without a goal, else a plan that can be
executed, ends in a state that is enough and comes with the states asked for. -/
theorem makePlan_cases {pStates : Option (List (State F))} {fuel : Nat} {result : PlanResult F}
    (ran : makePlan planner meter initialState [] pStates fuel = some (.ok result)) :
    (result.bReachedGoal = false ∧ result.actionsArray = []) ∨
      (result.bReachedGoal = true ∧ ∃ states, Executes initialState result.actionsArray states ∧
        (∀ action ∈ result.actionsArray, action ∈ planner.planningActions) ∧
        meter.enough (reached initialState states) = .ok true ∧ result.pStates = pStates.map (states ++ ·)) := by
  obtain ⟨last, explored, ending⟩ := mainLoop_cases .start ran
  rcases ending with ⟨_, _, same⟩ | ⟨path, search', status, reported⟩
  · left
    rw [same]
    exact ⟨rfl, rfl⟩
  · right
    obtain ⟨machine, searching⟩ := explored.searching
    have iteration := searching.iteration meter
    rw [status] at iteration
    cases iteration with
    | reachedGoal pops fresh enough nodes after =>
      obtain ⟨bound, states, trace, same⟩ := pops.leads
      rw [← nodes] at bound trace
      obtain ⟨result', found, actions, goal, given⟩ := after.reportGoal trace pStates
      cases found.symm.trans reported
      rw [actions]
      exact ⟨goal, states, trace, after.known path.id bound, same ▸ enough, given⟩

/-- A returned plan can be executed action by action from the initial state, ends
in a state that is enough and comes with the states it goes through. Without a
goal nothing is returned. -/
theorem makePlan_sound (planner : Planner F) (meter : PlanningStateMeter F) (initialState : State F)
    (fuel : Nat) (result : PlanResult F)
    (ran : makePlan planner meter initialState [] (some []) fuel = some (.ok result)) :
    (result.actionsArray ≠ [] → ∃ states, Executes initialState result.actionsArray states ∧
      (∀ action ∈ result.actionsArray, action ∈ planner.planningActions) ∧
      meter.enough (reached initialState states) = .ok true ∧ result.pStates = some states) ∧
    (result.bReachedGoal = false → result.actionsArray = []) := by
  rcases makePlan_cases ran with ⟨_, nothing⟩ | ⟨goal, states, trace, known, enough, given⟩
  · exact ⟨fun planned => absurd nothing planned, fun _ => nothing⟩
  · constructor
    · intro _
      rw [Option.map_some, List.append_nil] at given
      exact ⟨states, trace, known, enough, given⟩
    · intro none
      rw [goal] at none
      cases none

def raiser : Planner ℚ := ⟨.DepthFirst, [.raise], none⟩

/-- Enough when the entry 0 is there. -/
def raisedMeter : PlanningStateMeter ℚ where
  goalState := State.new.put (.scalar 0) (.scalar 1)
  monotonic := true
  distance _ := .ok 1
  enough state := .ok (state.find? (.scalar 0)).isSome

def planNames : Option (Except Exn (PlanResult F)) → Option (List String)
  | some (.ok result) => some (result.actionsArray.map PlanningAction.name)
  | _ => none

theorem planNames_eq_some {outcome : Option (Except Exn (PlanResult F))} {names : List String}
    (planned : planNames outcome = some names) :
    ∃ result, outcome = some (.ok result) ∧ result.actionsArray.map PlanningAction.name = names := by
  unfold planNames at planned
  split at planned
  · exact ⟨_, rfl, Option.some.inj planned⟩
  · cases planned

theorem makePlan_sound_raiser : ∃ result,
    makePlan raiser raisedMeter .new [] (some []) 1 = some (.ok result) ∧
    ∃ states, Executes State.new result.actionsArray states ∧
      (∀ action ∈ result.actionsArray, action ∈ raiser.planningActions) ∧
      raisedMeter.enough (reached State.new states) = .ok true ∧ result.pStates = some states := by
  obtain ⟨result, ran, names⟩ := planNames_eq_some
    (show planNames (makePlan raiser raisedMeter .new [] (some []) 1) = some ["raise"] by decide +kernel)
  refine ⟨result, ran, (makePlan_sound raiser raisedMeter .new 1 result ran).1 ?_⟩
  intro nothing
  simp [nothing] at names

end Goap.Planner
