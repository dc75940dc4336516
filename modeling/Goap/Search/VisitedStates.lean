import Goap.Search.Soundness

namespace Goap.Planner

open FloatOps Foundation

variable {F : Type} [FloatOps F] {planner : Planner F} {meter : PlanningStateMeter F} {initialState : State F}
  {search : Search F} {machine : TwoList (PathPtr F)}

/-- Equal under `State::equals`, whichever state is asked. -/
def Twins (state other : State F) : Prop := state.equals other = true ∨ other.equals state = true

instance (state other : State F) : Decidable (Twins state other) := inferInstanceAs (Decidable (_ ∨ _))

/-- No state is expanded twice. -/
def ExpandedOnce (search : Search F) : Prop := search.gathered.Pairwise fun newer older => ¬ Twins newer older

instance (search : Search F) : Decidable (ExpandedOnce search) := inferInstanceAs (Decidable (List.Pairwise _ _))

/-- The hash follows equality in the next lookup: a state that is no goal and has
a twin among the visited states equals one of them with its own hash. -/
def HashFollows (planner : Planner F) (meter : PlanningStateMeter F) (initialState : State F)
    (search : Search F) : Prop :=
  ∀ state, nextState planner initialState search = some state → meter.enough state = .ok false →
    (∃ stored ∈ search.visitedStates, Twins state stored) →
    ∃ stored ∈ search.visitedStates, state.hash = stored.hash ∧ state.equals stored = true

theorem any_keyMatch {state : State F} {visitedStates : List (State F)} :
    visitedStates.any (State.keyMatch state) = true ↔
      ∃ stored ∈ visitedStates, state.hash = stored.hash ∧ state.equals stored = true := by
  simp [State.keyMatch]

/-- One iteration expands no second twin if the hash follows equality in it. -/
theorem Searching.expandedOnce_step (searching : Searching planner initialState search machine)
    {search' : Search F} (ran : loopStep planner meter initialState search = .running search')
    (follows : HashFollows planner meter initialState search) (once : ExpandedOnce search) :
    ExpandedOnce search' := by
  have iteration := searching.iteration meter
  rw [ran] at iteration
  cases iteration with
  | rejected pops seen nodes visited after =>
    unfold ExpandedOnce
    rwa [after.gathered, visited, ← searching.gathered]
  | @expanded path machine' state _ pointers pops fresh notEnough spawned visited after =>
    unfold ExpandedOnce
    rw [after.gathered, visited, ← searching.gathered]
    refine List.pairwise_cons.mpr ⟨?_, once⟩
    intro stored member twins
    rw [searching.gathered] at member
    have found := any_keyMatch.mpr (follows state pops.next notEnough ⟨stored, member, twins⟩)
    rw [fresh] at found
    cases found

/-- An iteration in which the hash does not follow equality expands a twin. -/
theorem Searching.not_expandedOnce (searching : Searching planner initialState search machine)
    (broken : ¬ HashFollows planner meter initialState search) :
    ∃ search', loopStep planner meter initialState search = .running search' ∧ ¬ ExpandedOnce search' := by
  unfold HashFollows at broken
  push Not at broken
  obtain ⟨state, next, notEnough, ⟨stored, member, twins⟩, missed⟩ := broken
  have fresh : search.visitedStates.any (State.keyMatch state) = false := by
    rw [Bool.eq_false_iff, ne_eq, any_keyMatch]
    rintro ⟨other, inside, same, equal⟩
    exact missed other inside same equal
  have own : ∀ {path machine' state'}, Pops planner initialState search machine path machine' state' →
      state' = state := by
    intro path machine' state' pops
    exact Option.some.inj (pops.next.symm.trans next)
  have iteration := searching.iteration meter
  generalize status : loopStep planner meter initialState search = outcome at iteration ⊢
  cases iteration with
  | exhausted drained nothing =>
    rw [nothing] at next
    cases next
  | rejected pops seen nodes visited after =>
    cases own pops
    rw [fresh] at seen
    cases seen
  | thrown pops failed =>
    cases own pops
    rw [notEnough] at failed
    cases failed
  | reachedGoal pops _ enough nodes after =>
    cases own pops
    rw [notEnough] at enough
    cases enough
  | @expanded path machine' state' pointers search' pops _ _ spawned visited after =>
    refine ⟨search', rfl, ?_⟩
    cases own pops
    intro once
    unfold ExpandedOnce at once
    rw [after.gathered, visited] at once
    exact (List.pairwise_cons.mp once).1 stored member twins

/-- No run of the search expands a state twice exactly when the hash follows
equality in every lookup of every run. -/
theorem expandedOnce_iff (planner : Planner F) (meter : PlanningStateMeter F) (initialState : State F) :
    (∀ search, Explored planner meter initialState search → ExpandedOnce search) ↔
      ∀ search, Explored planner meter initialState search → HashFollows planner meter initialState search := by
  constructor
  · intro once search explored
    by_contra broken
    obtain ⟨machine, searching⟩ := explored.searching
    obtain ⟨search', ran, twice⟩ := searching.not_expandedOnce broken
    exact twice (once search' (explored.step ran))
  · intro follows search explored
    induction explored with
    | start =>
      obtain ⟨_, _, gathered, _⟩ := start_searching planner meter initialState
      simp [ExpandedOnce, gathered]
    | step before ran ih =>
      obtain ⟨machine, searching⟩ := before.searching
      exact searching.expandedOnce_step ran (follows _ before) ih

/-- The search after some iterations. -/
def afterSteps (planner : Planner F) (meter : PlanningStateMeter F) (initialState : State F) :
    Nat → Option (Search F)
  | 0 => some (start planner meter initialState)
  | steps + 1 =>
    match afterSteps planner meter initialState steps with
    | none => none
    | some search =>
      match loopStep planner meter initialState search with
      | .running search' => some search'
      | _ => none

theorem afterSteps_explored {steps : Nat}
    (ran : afterSteps planner meter initialState steps = some search) :
    Explored planner meter initialState search := by
  induction steps generalizing search with
  | zero => exact Option.some.inj ran ▸ .start
  | succ steps ih =>
    unfold afterSteps at ran
    split at ran
    · cases ran
    · rename_i middle before
      split at ran
      · rename_i search' status
        exact Option.some.inj ran ▸ (ih before).step status
      · cases ran

def bakeAt (cost : Float32) : PlanningAction Float32 where
  name := "bake"
  validator _ := .ok (lit 1)
  executor state := .ok ((state.put (.ofString "pie") (.scalar (lit 1))).setCost cost)

def twoOvens : Planner Float32 := ⟨.BreadthFirst, [bakeAt (lit 1), bakeAt (lit 2)], none⟩

/-- A goal that no action reaches. -/
def hungryMeter : PlanningStateMeter Float32 where
  goalState := .new
  monotonic := false
  distance _ := .ok (lit 1)
  enough _ := .ok false

/-- Two ovens bake the same pie at costs 1 and 2: the state with the pie is
expanded twice. -/
theorem expandedOnce_fails : ¬ ∀ (planner : Planner Float32) (meter : PlanningStateMeter Float32)
    (initialState : State Float32) (search : Search Float32),
    Explored planner meter initialState search → ExpandedOnce search := by
  intro once
  have twice : ((afterSteps twoOvens hungryMeter .new 2).map fun search => decide (ExpandedOnce search)) =
      some false := by decide +kernel
  obtain ⟨search, ran, answer⟩ := Option.map_eq_some_iff.mp twice
  exact of_decide_eq_false answer (once _ _ _ _ (afterSteps_explored ran))

end Goap.Planner
