import Goap.Search.MakePlan

/-! What an iteration of the search does, told once: the frontier is the
two-list machine, memos do not show, every path of the tree is an executable
sequence of actions. -/

namespace Goap

open FloatOps Foundation

variable {F : Type} [FloatOps F]

namespace Planner

variable {planner : Planner F} {meter : PlanningStateMeter F} {initialState : State F}
  {search : Search F} {machine : TwoList (PathPtr F)}

abbrev popped (planner : Planner F) (machine : TwoList (PathPtr F)) :
    Option (PathPtr F) × TwoList (PathPtr F) :=
  machine.pop (PrioritizedQueue.priority PathPtr.cost) planner.unvisitedPathes.discipline

/-- The path that the next iteration pops. -/
def nextPath (planner : Planner F) (search : Search F) : Option (PathPtr F) :=
  match PrioritizedQueue.pop planner.unvisitedPathes PathPtr.cost
      (PrioritizedQueue.empty PathPtr.cost search.unvisitedPaths).2 with
  | .ok (path, _) => path
  | .error _ => none

def nextState (planner : Planner F) (initialState : State F) (search : Search F) : Option (State F) :=
  (nextPath planner search).bind fun path =>
    (Path.executeFromRoot search.nodes path.id initialState search.memo).1.toOption

/-- An iteration pops a path and visits it, unless none is left. -/
theorem loopStep_cases (meter : PlanningStateMeter F) (initialState : State F)
    (refines : PrioritizedQueue.Refines PathPtr.cost search.unvisitedPaths machine) :
    (machine.contents = [] ∧ nextPath planner search = none ∧
      ∃ search', loopStep planner meter initialState search = .exhausted search') ∨
    ∃ path machine' unvisitedPaths, planner.popped machine = (some path, machine') ∧
      machine.contents.Perm (path :: machine'.contents) ∧
      PrioritizedQueue.Refines PathPtr.cost unvisitedPaths machine' ∧
      nextPath planner search = some path ∧
      loopStep planner meter initialState search =
        visit planner meter initialState path { search with unvisitedPaths } := by
  obtain ⟨answer, settled⟩ := refines.empty
  obtain ⟨unvisitedPaths, taken, after⟩ := settled.pop planner.unvisitedPathes
  rw [TwoList.pop_settle] at taken after
  unfold loopStep
  rcases TwoList.pop_contents (PrioritizedQueue.priority PathPtr.cost) planner.unvisitedPathes.discipline
    machine with ⟨drained, nothing, _⟩ | ⟨path, first, moved⟩
  · left
    rw [nothing] at taken
    have finished : machine.settle.active = [] := by
      rw [← TwoList.settle_contents] at drained
      exact (List.append_eq_nil_iff.mp drained).1
    refine ⟨drained, by simp [nextPath, taken], ?_⟩
    simp only [answer, finished, List.isEmpty_nil, ↓reduceIte]
    exact ⟨_, rfl⟩
  · right
    rw [first] at taken
    have occupied := TwoList.settle_active_ne_nil (List.ne_nil_of_mem (moved.mem_iff.mpr List.mem_cons_self))
    exact ⟨path, _, unvisitedPaths, Prod.ext first rfl, moved, after, by simp [nextPath, taken],
      by simp [answer, occupied, taken]⟩

/-- What an action contributes to an expansion: the cost of the new path. -/
def childCost (meter : PlanningStateMeter F) (pathCost min : F) (state : State F) (action : PlanningAction F) :
    Option F :=
  match action.canExecute state with
  | .ok true =>
    match action.execute state with
    | .ok next =>
      match meter.distance next with
      | .ok distance => some (pathCosts meter pathCost min min distance next.cost).1
      | .error _ => none
    | .error _ => none
  | _ => none

theorem childCost_eq_some {pathCost min cost : F} {state : State F} {action : PlanningAction F}
    (found : childCost meter pathCost min state action = some cost) :
    action.canExecute state = .ok true ∧ ∃ next, action.execute state = .ok next := by
  unfold childCost at found
  split at found
  · split at found
    · exact ⟨by assumption, _, by assumption⟩
    · cases found
  · cases found

/-- The observer and the exceptions of one action leave no trace: the search
gains a path or nothing but a new least distance. -/
theorem gatherAction_eq (planner : Planner F) (meter : PlanningStateMeter F) (path : Option (PathPtr F))
    (state : State F) (pathCost min : F) (search : Search F) (action : PlanningAction F) : ∃ minDistance,
      gatherAction planner meter path state pathCost min search action =
        match childCost meter pathCost min state action with
        | none => search
        | some cost => addPath { search with minDistance } path action cost := by
  unfold gatherAction gatherBody childCost
  cases action.canExecute state with
  | error e => exact ⟨search.minDistance, rfl⟩
  | ok able =>
    cases able with
    | false => exact ⟨search.minDistance, rfl⟩
    | true =>
      cases action.execute state with
      | error e => exact ⟨search.minDistance, rfl⟩
      | ok next =>
        cases measured : meter.distance next with
        | error e => exact ⟨search.minDistance, by simp only [measured]⟩
        | ok distance =>
          simp only [measured, pathCosts]
          split <;> exact ⟨_, rfl⟩

def children (planner : Planner F) (meter : PlanningStateMeter F) (pathCost min : F) (state : State F) :
    List (PlanningAction F × F) :=
  planner.planningActions.filterMap fun action =>
    (childCost meter pathCost min state action).map (action, ·)

theorem mem_children {pathCost min cost : F} {state : State F} {action : PlanningAction F} :
    (action, cost) ∈ children planner meter pathCost min state ↔
      action ∈ planner.planningActions ∧ childCost meter pathCost min state action = some cost := by
  simp only [children, List.mem_filterMap, Option.map_eq_some_iff, Prod.mk.injEq]
  constructor
  · rintro ⟨action, member, cost, found, rfl, rfl⟩
    exact ⟨member, found⟩
  · rintro ⟨member, found⟩
    exact ⟨action, member, cost, found, rfl, rfl⟩

/-- The tree after an expansion: the old paths keep their actions, and each
child has those of its parent and its own. -/
structure Spawned (nodes nodes' : PathNodes F) (parent : Option Nat)
    (children : List (PlanningAction F × F)) (pointers : List (PathPtr F)) : Prop where
  kept : ∀ id < nodes.length, Path.actionsTo nodes' id = Path.actionsTo nodes id
  grown : nodes.length ≤ nodes'.length
  covered : ∀ id < nodes'.length, id < nodes.length ∨ ∃ pointer ∈ pointers, pointer.id = id
  lines : List.Forall₂ (fun pointer child => pointer.id < nodes'.length ∧ pointer.cost = child.2 ∧
    Path.actionsTo nodes' pointer.id = Path.parentActions nodes parent ++ [child.1]) pointers children

theorem Spawned.refl (nodes : PathNodes F) (parent : Option Nat) : Spawned nodes nodes parent [] [] :=
  ⟨fun _ _ => rfl, Nat.le_refl _, fun _ => .inl, .nil⟩

theorem Spawned.cons {nodes nodes' : PathNodes F} {parent : Option Nat} {action : PlanningAction F} {cost : F}
    {children : List (PlanningAction F × F)} {pointers : List (PathPtr F)}
    (known : ∀ id, parent = some id → id < nodes.length)
    (rest : Spawned (⟨action, parent⟩ :: nodes) nodes' parent children pointers) :
    Spawned nodes nodes' parent ((action, cost) :: children) (⟨nodes.length, cost⟩ :: pointers) := by
  have older : ∀ id < nodes.length, Path.actionsTo (⟨action, parent⟩ :: nodes) id = Path.actionsTo nodes id :=
    fun id bound => Path.actionsTo_older bound.ne
  have sameParent : Path.parentActions (⟨action, parent⟩ :: nodes) parent = Path.parentActions nodes parent := by
    cases parent with
    | none => rfl
    | some id => exact older id (known id rfl)
  have size : (⟨action, parent⟩ :: nodes : PathNodes F).length = nodes.length + 1 := rfl
  have grown := rest.grown
  rw [size] at grown
  have bound : nodes.length < nodes'.length := by omega
  refine ⟨?_, by omega, ?_, .cons ⟨bound, rfl, ?_⟩ ?_⟩
  · intro id bound
    rw [rest.kept id (by omega), older id bound]
  · intro id bound
    rcases rest.covered id bound with old | ⟨pointer, member, same⟩
    · by_cases own : id = nodes.length
      · exact .inr ⟨_, List.mem_cons_self, own.symm⟩
      · exact .inl (by omega)
    · exact .inr ⟨pointer, by simp [member], same⟩
  · rw [rest.kept nodes.length (by omega)]
    exact Path.actionsTo_own ⟨action, parent⟩ nodes
  · rw [← sameParent]
    exact rest.lines

/-- What `gather` does to a search. -/
structure Gathered (planner : Planner F) (meter : PlanningStateMeter F) (path : Option (PathPtr F))
    (state : State F) (pathCost : F) (before after : Search F) (pointers : List (PathPtr F)) : Prop where
  spawned : Spawned before.nodes after.nodes (path.map PathPtr.id)
    (children planner meter pathCost before.minDistance state) pointers
  queue : ∀ machine, PrioritizedQueue.Refines PathPtr.cost before.unvisitedPaths machine →
    PrioritizedQueue.Refines PathPtr.cost after.unvisitedPaths
      { machine with pending := machine.pending ++ pointers }
  memo : after.memo = before.memo
  visitedStates : after.visitedStates = before.visitedStates
  gathered : after.gathered = state :: before.gathered

theorem gather_spec (planner : Planner F) (meter : PlanningStateMeter F) (path : Option (PathPtr F))
    (state : State F) (pathCost : F) (search : Search F)
    (known : ∀ pointer, path = some pointer → pointer.id < search.nodes.length) :
    ∃ pointers, Gathered planner meter path state pathCost search
      (gather planner meter path state pathCost search) pointers := by
  suffices pass : ∀ (actions : List (PlanningAction F)) (search : Search F) (min : F),
      (∀ pointer, path = some pointer → pointer.id < search.nodes.length) →
      ∃ pointers, Spawned search.nodes
          (actions.foldl (gatherAction planner meter path state pathCost min) search).nodes (path.map PathPtr.id)
          (actions.filterMap fun action => (childCost meter pathCost min state action).map (action, ·)) pointers ∧
        (∀ machine, PrioritizedQueue.Refines PathPtr.cost search.unvisitedPaths machine →
          PrioritizedQueue.Refines PathPtr.cost
            (actions.foldl (gatherAction planner meter path state pathCost min) search).unvisitedPaths
            { machine with pending := machine.pending ++ pointers }) ∧
        (actions.foldl (gatherAction planner meter path state pathCost min) search).memo = search.memo ∧
        (actions.foldl (gatherAction planner meter path state pathCost min) search).visitedStates =
          search.visitedStates ∧
        (actions.foldl (gatherAction planner meter path state pathCost min) search).gathered =
          search.gathered by
    obtain ⟨pointers, spawned, queue, memo, visited, gathered⟩ := pass planner.planningActions
      { search with gathered := state :: search.gathered } search.minDistance known
    exact ⟨pointers, spawned, queue, memo, visited, gathered⟩
  intro actions
  induction actions with
  | nil => exact fun search _ _ => ⟨[], .refl _ _, fun _ refines => by simpa using refines, rfl, rfl, rfl⟩
  | cons action rest ih =>
    intro search min known
    obtain ⟨minDistance, same⟩ := gatherAction_eq planner meter path state pathCost min
      search action
    rw [List.foldl_cons, same, List.filterMap_cons]
    cases childCost meter pathCost min state action with
    | none => exact ih search min known
    | some cost =>
      obtain ⟨pointers, spawned, queue, memo, visited, gathered⟩ :=
        ih (addPath { search with minDistance } path action cost) min fun pointer present =>
          (known pointer present).trans (Nat.lt_succ_self _)
      refine ⟨⟨search.nodes.length, cost⟩ :: pointers, spawned.cons ?_, ?_, memo, visited, gathered⟩
      · intro id present
        obtain ⟨pointer, own, rfl⟩ := Option.map_eq_some_iff.mp present
        exact known pointer own
      · intro machine refines
        have pushed : PrioritizedQueue.Refines PathPtr.cost
            (search.unvisitedPaths.pushLazy ⟨search.nodes.length, cost⟩)
            (machine.pushLazy ⟨search.nodes.length, cost⟩) :=
          ⟨refines.holds.withLazyArray _, congrArg (· ++ [_]) refines.pending⟩
        simpa [TwoList.pushLazy] using queue _ pushed

def Leads (initialState : State F) (nodes : PathNodes F) (id : Nat) (state : State F) : Prop :=
  id < nodes.length ∧ ∃ states, Executes initialState (Path.actionsTo nodes id) states ∧
    reached initialState states = state

/-- What holds of the search at the head of the main loop, with the two-list
machine that its frontier is. -/
structure Searching (planner : Planner F) (initialState : State F) (search : Search F)
    (machine : TwoList (PathPtr F)) : Prop where
  queue : PrioritizedQueue.Refines PathPtr.cost search.unvisitedPaths machine
  memos : Path.MemoSound (fun _ => (· = initialState)) Eq search.nodes search.memo
  known : ∀ id < search.nodes.length, ∀ action ∈ Path.actionsTo search.nodes id, action ∈ planner.planningActions
  leads : ∀ id < search.nodes.length, ∃ state, Leads initialState search.nodes id state
  bounded : ∀ pointer ∈ machine.contents, pointer.id < search.nodes.length
  gathered : search.gathered = search.visitedStates

theorem memoLaws_initial (initialState : State F) (nodes : PathNodes F) :
    Path.MemoLaws (fun _ => (· = initialState)) Eq nodes where
  near_refl _ := rfl
  near_trans _ _ _ one two := one.trans two
  shorter own := own
  step := by
    intro _ _ _ action _ _ _ _ _ _ close
    exact .of_eq (by rw [close]) fun _ _ => rfl
  equal := by
    intro _ _ _ _ left right _
    exact .of_eq (by rw [left, right]) fun _ _ => rfl

theorem Searching.executeFromRoot (searching : Searching planner initialState search machine) {id : Nat}
    {state : State F} (leads : Leads initialState search.nodes id state) :
    ∃ memo, Path.executeFromRoot search.nodes id initialState search.memo = (.ok state, memo) ∧
      Path.MemoSound (fun _ => (· = initialState)) Eq search.nodes memo := by
  obtain ⟨agree, sound⟩ := Path.executeFromRoot_sound id (memoLaws_initial initialState search.nodes)
    List.suffix_rfl rfl searching.memos
  obtain ⟨_, states, trace, same⟩ := leads
  refine ⟨_, Prod.ext ?_ rfl, sound⟩
  rw [agree.eq, trace.runActions, same]

theorem Leads.spawned {nodes nodes' : PathNodes F} {parent : Option Nat}
    {children : List (PlanningAction F × F)} {pointers : List (PathPtr F)}
    (spawned : Spawned nodes nodes' parent children pointers) {id : Nat} {state : State F}
    (leads : Leads initialState nodes id state) : Leads initialState nodes' id state := by
  obtain ⟨bound, trace⟩ := leads
  refine ⟨bound.trans_le spawned.grown, ?_⟩
  rw [spawned.kept id bound]
  exact trace

/-- Expanding a state that the parent path leads to keeps the search in order. -/
theorem Searching.gather {path : Option (PathPtr F)} {state : State F} {pathCost : F} {before after : Search F}
    {pointers : List (PathPtr F)} {states : List (State F)}
    (searching : Searching planner initialState { before with visitedStates := before.gathered } machine)
    (effect : Gathered planner meter path state pathCost before after pointers)
    (trace : Executes initialState (Path.parentActions before.nodes (path.map PathPtr.id)) states)
    (same : reached initialState states = state)
    (known : ∀ action ∈ Path.parentActions before.nodes (path.map PathPtr.id),
      action ∈ planner.planningActions)
    (visited : before.visitedStates = state :: before.gathered) :
    Searching planner initialState after { machine with pending := machine.pending ++ pointers } := by
  have child : ∀ pointer ∈ pointers, pointer.id < after.nodes.length ∧
      (∀ action ∈ Path.actionsTo after.nodes pointer.id, action ∈ planner.planningActions) ∧
      ∃ state, Leads initialState after.nodes pointer.id state := by
    intro pointer member
    obtain ⟨⟨action, cost⟩, spawn, bound, _, line⟩ := exists_right_of_forall₂ effect.spawned.lines member
    obtain ⟨allowed, costs⟩ := mem_children.mp spawn
    obtain ⟨able, next, step⟩ := childCost_eq_some costs
    rw [← same] at able step
    refine ⟨bound, ?_, next, bound, states ++ [next], line ▸ trace.snoc able step, reached_snoc _ _ _⟩
    intro other inside
    rw [line] at inside
    rcases List.mem_append.mp inside with old | own
    · exact known other old
    · rwa [List.mem_singleton.mp own]
  refine ⟨effect.queue machine searching.queue, ?_, ?_, ?_, ?_, ?_⟩
  · intro id initial final stored
    rw [effect.memo] at stored
    obtain ⟨bound, began, result, ran, close⟩ := searching.memos id initial final stored
    refine ⟨bound.trans_le effect.spawned.grown, began, result, ?_, close⟩
    rw [effect.spawned.kept id bound]
    exact ran
  · intro id bound
    rcases effect.spawned.covered id bound with old | ⟨pointer, member, own⟩
    · rw [effect.spawned.kept id old]
      exact searching.known id old
    · exact own ▸ (child pointer member).2.1
  · intro id bound
    rcases effect.spawned.covered id bound with old | ⟨pointer, member, own⟩
    · obtain ⟨state, leads⟩ := searching.leads id old
      exact ⟨state, leads.spawned effect.spawned⟩
    · exact own ▸ (child pointer member).2.2
  · intro pointer member
    rw [TwoList.contents, ← List.append_assoc] at member
    rcases List.mem_append.mp member with old | new
    · exact (searching.bounded pointer old).trans_le effect.spawned.grown
    · exact (child pointer new).1
  · rw [effect.gathered, effect.visitedStates, visited]

theorem start_searching (planner : Planner F) (meter : PlanningStateMeter F) (initialState : State F) :
    ∃ pointers,
    Spawned [] (start planner meter initialState).nodes none
      (children planner meter (lit 0) (lit 1) initialState) pointers ∧
    (start planner meter initialState).gathered = [initialState] ∧
    Searching planner initialState (start planner meter initialState) ⟨[], pointers⟩ := by
  obtain ⟨pointers, effect⟩ := gather_spec planner meter none initialState (lit 0)
    { nodes := [], memo := fun _ => none, unvisitedPaths := .new, visitedStates := [initialState],
      minDistance := lit 1, analyzedPaths := 0, rejectedPaths := 0, gathered := [] }
    (fun pointer present => by cases present)
  refine ⟨pointers, effect.spawned, effect.gathered, ?_⟩
  have empty : Searching planner initialState
      { nodes := [], memo := fun _ => none, unvisitedPaths := .new, visitedStates := [],
        minDistance := lit 1, analyzedPaths := 0, rejectedPaths := 0, gathered := [] } .new :=
    ⟨.new, fun _ _ _ stored => (by cases stored), fun _ bound => absurd bound (Nat.not_lt_zero _),
      fun _ bound => absurd bound (Nat.not_lt_zero _), fun _ member => (by cases member), rfl⟩
  exact empty.gather effect .nil rfl (by simp [Path.parentActions]) rfl

/-- The path popped from the frontier and the state it leads to. -/
structure Pops (planner : Planner F) (initialState : State F) (search : Search F) (machine : TwoList (PathPtr F))
    (path : PathPtr F) (machine' : TwoList (PathPtr F)) (state : State F) : Prop where
  pop : planner.popped machine = (some path, machine')
  leads : Leads initialState search.nodes path.id state
  next : nextState planner initialState search = some state

/-- What one iteration of the main loop can do. -/
inductive Iteration (planner : Planner F) (meter : PlanningStateMeter F) (initialState : State F)
    (search : Search F) (machine : TwoList (PathPtr F)) : LoopStatus F → Prop where
  | exhausted (drained : machine.contents = []) (nothing : nextState planner initialState search = none) :
      Iteration planner meter initialState search machine (.exhausted search')
  | rejected (pops : Pops planner initialState search machine path machine' state)
      (seen : search.visitedStates.any (State.keyMatch state) = true)
      (nodes : search'.nodes = search.nodes) (visited : search'.visitedStates = search.visitedStates)
      (after : Searching planner initialState search' machine') :
      Iteration planner meter initialState search machine (.running search')
  | thrown (pops : Pops planner initialState search machine path machine' state)
      (failed : meter.enough state = .error e) :
      Iteration planner meter initialState search machine (.thrown e)
  | reachedGoal (pops : Pops planner initialState search machine path machine' state)
      (fresh : search.visitedStates.any (State.keyMatch state) = false)
      (enough : meter.enough state = .ok true) (nodes : search'.nodes = search.nodes)
      (after : Searching planner initialState search' machine') :
      Iteration planner meter initialState search machine (.reachedGoal path search')
  | expanded (pops : Pops planner initialState search machine path machine' state)
      (fresh : search.visitedStates.any (State.keyMatch state) = false)
      (notEnough : meter.enough state = .ok false)
      (spawned : Spawned search.nodes search'.nodes (some path.id)
        (children planner meter path.cost search.minDistance state) pointers)
      (visited : search'.visitedStates = state :: search.visitedStates)
      (after : Searching planner initialState search'
        { machine' with pending := machine'.pending ++ pointers }) :
      Iteration planner meter initialState search machine (.running search')

theorem popped_contents {path : PathPtr F} {machine' : TwoList (PathPtr F)}
    (pop : planner.popped machine = (some path, machine')) :
    machine.contents.Perm (path :: machine'.contents) := by
  unfold popped at pop
  rcases TwoList.pop_contents (PrioritizedQueue.priority PathPtr.cost) planner.unvisitedPathes.discipline
    machine with ⟨_, none, _⟩ | ⟨other, same, moved⟩
  · rw [pop] at none
    cases none
  · rw [pop] at same moved
    cases same
    exact moved

/-- An iteration from a search in order does one of these things. -/
theorem Searching.iteration (searching : Searching planner initialState search machine)
    (meter : PlanningStateMeter F) :
    Iteration planner meter initialState search machine (loopStep planner meter initialState search) := by
  rcases loopStep_cases meter initialState searching.queue with
    ⟨drained, nothing, search', status⟩ | ⟨path, machine', unvisitedPaths, pop, moved, queue, popped, status⟩
  · rw [status]
    exact .exhausted drained (by simp [nextState, nothing])
  · have bound : path.id < search.nodes.length := searching.bounded path (moved.mem_iff.mpr (by simp))
    obtain ⟨state, leads⟩ := searching.leads path.id bound
    obtain ⟨memo, ran, memos⟩ := searching.executeFromRoot leads
    have pops : Pops planner initialState search machine path machine' state :=
      ⟨pop, leads, by simp [nextState, popped, ran, Except.toOption]⟩
    have after : Searching planner initialState { search with unvisitedPaths, memo } machine' :=
      ⟨queue, memos, searching.known, searching.leads,
        fun pointer member => searching.bounded pointer (moved.mem_iff.mpr (by simp [member])), searching.gathered⟩
    rw [status, visit]
    dsimp only
    rw [ran]
    dsimp only
    by_cases seen : search.visitedStates.any (State.keyMatch state) = true
    · rw [if_pos seen]
      exact .rejected pops seen rfl rfl
        ⟨after.queue, after.memos, after.known, after.leads, after.bounded, after.gathered⟩
    · have fresh := Bool.eq_false_iff.mpr seen
      rw [if_neg seen]
      cases enough : meter.enough state with
      | error e => exact .thrown pops enough
      | ok answer =>
        cases answer with
        | true => exact .reachedGoal pops fresh enough rfl after
        | false =>
          obtain ⟨states, trace, same⟩ := leads.2
          obtain ⟨pointers, effect⟩ := gather_spec planner meter (some path) state path.cost
            { search with unvisitedPaths, memo, visitedStates := state :: search.visitedStates }
            (fun pointer present => by cases present; exact bound)
          have ready : Searching planner initialState
              { search with unvisitedPaths, memo, visitedStates := search.gathered } machine' :=
            ⟨after.queue, after.memos, after.known, after.leads, after.bounded, rfl⟩
          have next := ready.gather effect trace same (searching.known path.id bound)
            (congrArg (state :: ·) searching.gathered.symm)
          exact .expanded pops fresh enough effect.spawned effect.visitedStates
            ⟨next.queue, next.memos, next.known, next.leads, next.bounded, next.gathered⟩

end Planner

end Goap
