import Goap.Foundation.Coverage
import Goap.Search.Soundness

/-! What the visited states and the frontier cover together, in any order of
expansion: a step from a visited state leads to a visited state or to the end of
a path that still waits. -/

namespace Goap.Planner

open FloatOps Foundation

variable {F : Type} [FloatOps F] {planner : Planner F} {meter : PlanningStateMeter F} {initialState : State F}
  {search : Search F} {machine : TwoList (PathPtr F)} {level : Nat → Nat}

/-- An action of the planner leads from a state to the next. -/
def Step (planner : Planner F) (state next : State F) : Prop :=
  ∃ action ∈ planner.planningActions, action.canExecute state = .ok true ∧ action.execute state = .ok next

/-- Executable actions of the planner lead from the initial state to a state. -/
def Reachable (planner : Planner F) (initialState state : State F) : Prop :=
  ∃ actions states, Executes initialState actions states ∧
    (∀ action ∈ actions, action ∈ planner.planningActions) ∧ reached initialState states = state

theorem Reachable.step {state next : State F} (reachable : Reachable planner initialState state)
    (step : Step planner state next) : Reachable planner initialState next := by
  obtain ⟨actions, states, trace, known, rfl⟩ := reachable
  obtain ⟨action, member, allowed, executed⟩ := step
  refine ⟨actions ++ [action], states ++ [next], trace.snoc allowed executed, ?_, reached_snoc _ _ _⟩
  intro other inside
  rcases List.mem_append.mp inside with old | own
  · exact known other old
  · rwa [List.mem_singleton.mp own]

theorem Reachable.initial : Reachable planner initialState initialState :=
  ⟨[], [], .nil, by simp, rfl⟩

def depth (nodes : PathNodes F) (id : Nat) : Nat := (Path.actionsTo nodes id).length

theorem Leads.eq {nodes : PathNodes F} {id : Nat} {state other : State F}
    (leads : Leads initialState nodes id state) (leads' : Leads initialState nodes id other) : state = other := by
  obtain ⟨_, states, trace, rfl⟩ := leads
  obtain ⟨_, states', trace', rfl⟩ := leads'
  exact Except.ok.inj (trace.runActions.symm.trans trace'.runActions)

/-- A state found among the visited ones: itself or one that the lookup takes for it. -/
def Found (state stored : State F) : Prop := state = stored ∨ State.keyMatch state stored = true

/-- The visited states with the depths at which they were found. Nothing visited
is a goal and every step from it is covered, not deeper than one below it. -/
structure Covering (level : Nat → Nat) (planner : Planner F) (meter : PlanningStateMeter F)
    (initialState : State F) (search : Search F) (machine : TwoList (PathPtr F))
    (depths : List (State F × Nat)) : Prop where
  searching : Searching planner initialState search machine
  visited : depths.map Prod.fst = search.visitedStates
  began : ∃ v ∈ depths, v.1 = initialState ∧ level v.2 ≤ level 0
  reachable : ∀ v ∈ depths, Reachable planner initialState v.1
  notEnough : ∀ v ∈ depths, meter.enough v.1 ≠ .ok true
  closed : ∀ v ∈ depths, ∀ target, Step planner v.1 target →
    (∃ w ∈ depths, Found target w.1 ∧ level w.2 ≤ level (v.2 + 1)) ∨
      ∃ pointer ∈ machine.contents, Leads initialState search.nodes pointer.id target ∧
        level (depth search.nodes pointer.id) ≤ level (v.2 + 1)

/-- The meter measures every state that a step from a reachable state leads to. -/
def Measures (planner : Planner F) (meter : PlanningStateMeter F) (initialState : State F) : Prop :=
  ∀ state next, Reachable planner initialState state → Step planner state next →
    ∃ distance, meter.distance next = .ok distance

/-- Every step from an expanded state has its own new path. -/
theorem Spawned.child {nodes nodes' : PathNodes F} {parent : Option Nat} {pathCost min : F} {state next : State F}
    {pointers : List (PathPtr F)} {states : List (State F)}
    (spawned : Spawned nodes nodes' parent (children planner meter pathCost min state) pointers)
    (trace : Executes initialState (Path.parentActions nodes parent) states)
    (same : reached initialState states = state) (step : Step planner state next)
    (measured : ∃ distance, meter.distance next = .ok distance) :
    ∃ pointer ∈ pointers, Leads initialState nodes' pointer.id next ∧
      depth nodes' pointer.id = (Path.parentActions nodes parent).length + 1 := by
  obtain ⟨action, member, allowed, executed⟩ := step
  obtain ⟨distance, measured⟩ := measured
  have spawn : (action, (pathCosts meter pathCost min min distance next.cost).1) ∈
      children planner meter pathCost min state :=
    mem_children.mpr ⟨member, by simp [childCost, allowed, executed, measured]⟩
  obtain ⟨pointer, present, bound, _, line⟩ := exists_left_of_forall₂ spawned.lines spawn
  rw [← same] at allowed executed
  refine ⟨pointer, present, ⟨bound, states ++ [next], ?_, reached_snoc _ _ _⟩, ?_⟩
  · rw [line]
    exact trace.snoc allowed executed
  · rw [depth, line, List.length_append]
    rfl

theorem Leads.reachable (searching : Searching planner initialState search machine) {id : Nat} {state : State F}
    (leads : Leads initialState search.nodes id state) : Reachable planner initialState state := by
  obtain ⟨bound, states, trace, same⟩ := leads
  exact ⟨_, states, trace, searching.known id bound, same⟩

/-- The search covers what it should before the main loop. -/
theorem start_covering (level : Nat → Nat) (measures : Measures planner meter initialState)
    (notEnough : meter.enough initialState ≠ .ok true) : ∃ pointers,
      Spawned [] (start planner meter initialState).nodes none
        (children planner meter (lit 0) (lit 1) initialState) pointers ∧
      Covering level planner meter initialState (start planner meter initialState) ⟨[], pointers⟩
        [(initialState, 0)] := by
  obtain ⟨pointers, spawned, gathered, searching⟩ := start_searching planner meter initialState
  refine ⟨pointers, spawned, searching, ?_, ?_, ?_, ?_, ?_⟩
  · rw [← searching.gathered, gathered]
    rfl
  · exact ⟨_, List.mem_singleton_self _, rfl, Nat.le_refl _⟩
  · intro v member
    rw [List.mem_singleton.mp member]
    exact .initial
  · intro v member
    rwa [List.mem_singleton.mp member]
  · intro v member target step
    rw [List.mem_singleton.mp member] at step ⊢
    have root : Executes initialState (Path.parentActions [] none) [] := .nil
    obtain ⟨pointer, present, leads, deep⟩ := spawned.child root rfl step (measures _ _ .initial step)
    exact .inr ⟨pointer, present, leads, Nat.le_of_eq (congrArg level deep)⟩

/-- What a popped path was needed for: its end, once that is visited no deeper. -/
theorem Covering.closed_popped {depths depths' : List (State F × Nat)} {path : PathPtr F}
    {machine' : TwoList (PathPtr F)} {state : State F}
    (covering : Covering level planner meter initialState search machine depths)
    (pops : Pops planner initialState search machine path machine' state)
    (kept : ∀ v ∈ depths, v ∈ depths')
    (settled : ∃ w ∈ depths', Found state w.1 ∧ level w.2 ≤ level (depth search.nodes path.id)) :
    ∀ v ∈ depths, ∀ target, Step planner v.1 target →
      (∃ w ∈ depths', Found target w.1 ∧ level w.2 ≤ level (v.2 + 1)) ∨
        ∃ pointer ∈ machine'.contents, Leads initialState search.nodes pointer.id target ∧
          level (depth search.nodes pointer.id) ≤ level (v.2 + 1) := by
  intro v member target step
  rcases covering.closed v member target step with ⟨w, present, found, bound⟩ | ⟨pointer, waiting, leads, bound⟩
  · exact .inl ⟨w, kept w present, found, bound⟩
  · rcases List.mem_cons.mp ((popped_contents pops.pop).mem_iff.mp waiting) with own | left
    · subst own
      obtain ⟨w, present, found, shallow⟩ := settled
      rw [← leads.eq pops.leads] at found
      exact .inl ⟨w, present, found, shallow.trans bound⟩
    · exact .inr ⟨pointer, left, leads, bound⟩

theorem Covering.rejected {depths : List (State F × Nat)} {path : PathPtr F} {machine' : TwoList (PathPtr F)}
    {state : State F} {search' : Search F}
    (covering : Covering level planner meter initialState search machine depths)
    (pops : Pops planner initialState search machine path machine' state)
    (shallow : ∀ v ∈ depths, level v.2 ≤ level (depth search.nodes path.id))
    (seen : search.visitedStates.any (State.keyMatch state) = true) (nodes : search'.nodes = search.nodes)
    (visited : search'.visitedStates = search.visitedStates)
    (after : Searching planner initialState search' machine') :
    Covering level planner meter initialState search' machine' depths := by
  refine ⟨after, covering.visited.trans visited.symm, covering.began, covering.reachable, covering.notEnough, ?_⟩
  rw [nodes]
  apply covering.closed_popped pops (fun _ member => member)
  obtain ⟨stored, member, found⟩ := List.any_eq_true.mp seen
  rw [← covering.visited] at member
  obtain ⟨w, present, rfl⟩ := List.mem_map.mp member
  exact ⟨w, present, .inr found, shallow w present⟩

theorem Covering.expanded {depths : List (State F × Nat)} {path : PathPtr F} {machine' : TwoList (PathPtr F)}
    {state : State F} {search' : Search F} {pointers : List (PathPtr F)}
    (covering : Covering level planner meter initialState search machine depths)
    (measures : Measures planner meter initialState)
    (pops : Pops planner initialState search machine path machine' state)
    (notEnough : meter.enough state = .ok false)
    (spawned : Spawned search.nodes search'.nodes (some path.id)
      (children planner meter path.cost search.minDistance state) pointers)
    (visited : search'.visitedStates = state :: search.visitedStates)
    (after : Searching planner initialState search' { machine' with pending := machine'.pending ++ pointers }) :
    Covering level planner meter initialState search' { machine' with pending := machine'.pending ++ pointers }
      ((state, depth search.nodes path.id) :: depths) := by
  have reachable := pops.leads.reachable covering.searching
  refine ⟨after, ?_, ?_, ?_, ?_, ?_⟩
  · rw [List.map_cons, covering.visited, visited]
  · obtain ⟨v, member, same, bound⟩ := covering.began
    exact ⟨v, List.mem_cons_of_mem _ member, same, bound⟩
  · exact List.forall_mem_cons.mpr ⟨reachable, covering.reachable⟩
  · refine List.forall_mem_cons.mpr ⟨?_, covering.notEnough⟩
    rw [notEnough]
    simp
  · intro v member target step
    rcases List.mem_cons.mp member with own | old
    · subst own
      obtain ⟨states, trace, same⟩ := pops.leads.2
      obtain ⟨pointer, present, leads, deep⟩ := spawned.child trace same step (measures _ _ reachable step)
      exact .inr ⟨pointer, by simp [TwoList.contents, present], leads, Nat.le_of_eq (congrArg level deep)⟩
    · have settled : ∃ w ∈ (state, depth search.nodes path.id) :: depths, Found state w.1 ∧
          level w.2 ≤ level (depth search.nodes path.id) :=
        ⟨_, List.mem_cons_self, .inl rfl, Nat.le_refl _⟩
      rcases covering.closed_popped pops (fun _ member => List.mem_cons_of_mem _ member) settled v old target step
        with covered | ⟨pointer, waiting, leads, bound⟩
      · exact .inl covered
      · refine .inr ⟨pointer, ?_, leads.spawned spawned, ?_⟩
        · rw [TwoList.contents, ← List.append_assoc]
          exact List.mem_append_left _ waiting
        · rwa [depth, spawned.kept _ leads.1]

/-- A relation of states that equality implies and that validators, executors and
`enough` respect: what it means that they read the entries only. -/
structure Coherent (planner : Planner F) (meter : PlanningStateMeter F) (initialState : State F)
    (same : State F → State F → Prop) : Prop where
  refl : ∀ state, Reachable planner initialState state → same state state
  trans : ∀ first second third, same first second → same second third → same first third
  equal : ∀ state other, Reachable planner initialState state → Reachable planner initialState other →
    state.equals other = true → same state other
  step : ∀ state other next, same state other → Step planner state next →
    ∃ next', Step planner other next' ∧ same next next'
  enough : ∀ state other, same state other → meter.enough state = meter.enough other

variable {same : State F → State F → Prop}

theorem Coherent.found (coherent : Coherent planner meter initialState same) {state stored : State F}
    (left : Reachable planner initialState state) (right : Reachable planner initialState stored)
    (found : Found state stored) : same state stored := by
  rcases found with own | matched
  · exact own ▸ coherent.refl _ left
  · exact coherent.equal _ _ left right (Bool.and_eq_true_iff.mp matched).2

theorem stepsIn_of_executes {state : State F} {actions : List (PlanningAction F)} {states : List (State F)}
    (trace : Executes state actions states) (known : ∀ action ∈ actions, action ∈ planner.planningActions)
    {steps : Nat} {origin : State F} (before : StepsIn (Step planner) steps origin state) :
    StepsIn (Step planner) (steps + actions.length) origin (reached state states) := by
  induction trace generalizing steps with
  | nil => exact before
  | @cons state next action actions states allowed step rest ih =>
    have moved := ih (fun other member => known other (by simp [member]))
      (before.tail ⟨action, known action (by simp), allowed, step⟩)
    rw [reached_cons, List.length_cons, Nat.add_comm actions.length, ← Nat.add_assoc]
    exact moved

theorem reachable_of_stepsIn {steps : Nat} {state : State F}
    (trace : StepsIn (Step planner) steps initialState state) : Reachable planner initialState state := by
  induction trace with
  | refl => exact .initial
  | tail _ last ih => exact ih.step last

theorem Reachable.invariant {holds : State F → Prop} {state : State F}
    (reachable : Reachable planner initialState state) (began : holds initialState)
    (next : ∀ state next, holds state → Step planner state next → holds next) : holds state := by
  obtain ⟨actions, states, trace, known, rfl⟩ := reachable
  have steps := stepsIn_of_executes trace known .refl
  generalize 0 + actions.length = count at steps
  generalize reached initialState states = state at steps
  clear trace
  induction steps with
  | refl => exact began
  | tail _ last ih => exact next _ _ (ih began) last

theorem Reachable.cases {state : State F} (reachable : Reachable planner initialState state) :
    state = initialState ∨ ∃ before, Reachable planner initialState before ∧ Step planner before state := by
  obtain ⟨actions, states, trace, known, rfl⟩ := reachable
  have steps := stepsIn_of_executes trace known .refl
  generalize 0 + actions.length = count at steps
  generalize reached initialState states = state at steps
  cases steps with
  | refl => exact .inl rfl
  | tail before last => exact .inr ⟨_, reachable_of_stepsIn before, last⟩

/-- A sequence of executable actions to a goal runs into the frontier: some path
that waits is no longer than the sequence. -/
theorem Covering.cuts (coherent : Coherent planner meter initialState same) (measure : DepthMeasure level)
    {depths : List (State F × Nat)} (covering : Covering level planner meter initialState search machine depths)
    {actions : List (PlanningAction F)} {states : List (State F)} (trace : Executes initialState actions states)
    (known : ∀ action ∈ actions, action ∈ planner.planningActions)
    (enough : meter.enough (reached initialState states) = .ok true) :
    ∃ pointer ∈ machine.contents, level (depth search.nodes pointer.id) ≤ level actions.length := by
  have steps := stepsIn_of_executes trace known .refl
  rw [Nat.zero_add] at steps
  have began : ∃ v ∈ depths, same initialState v.1 ∧ level v.2 ≤ level 0 := by
    obtain ⟨v, member, own, bound⟩ := covering.began
    refine ⟨v, member, ?_, bound⟩
    rw [own]
    exact coherent.refl _ .initial
  have closed : ∀ v ∈ depths, ∀ target, Step planner v.1 target →
      (∃ w ∈ depths, same target w.1 ∧ level w.2 ≤ level (v.2 + 1)) ∨
        ∃ deep, (∃ pointer ∈ machine.contents, depth search.nodes pointer.id = deep) ∧
          level deep ≤ level (v.2 + 1) := by
    intro v member target step
    rcases covering.closed v member target step with ⟨w, present, found, bound⟩ | ⟨pointer, waiting, _, bound⟩
    · have left := (covering.reachable v member).step step
      exact .inl ⟨w, present, coherent.found left (covering.reachable w present) found, bound⟩
    · exact .inr ⟨_, ⟨pointer, waiting, rfl⟩, bound⟩
  rcases visited_or_open measure coherent.trans coherent.step closed began steps with
    ⟨w, member, close, _⟩ | ⟨_, ⟨pointer, waiting, rfl⟩, bound⟩
  · rw [coherent.enough _ _ close] at enough
    exact absurd enough (covering.notEnough w member)
  · exact ⟨pointer, waiting, bound⟩

end Goap.Planner
