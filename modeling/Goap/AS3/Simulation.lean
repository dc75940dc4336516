import Goap.AS3.PathPool

namespace Goap.AS3

open NumberOps Foundation

variable {N Other : Type} [ToString Other] [NumberOps N] {planner : Planner N Other}
  {meter : PlanningStateMeter N Other} {initialState reachedByPath : IWriteState N Other}
  {path : Option Nat} {trail : Trail N Other}

namespace Planner

/-- Actions and meter go by what can be read of a state. -/
structure Readable (planner : Planner N Other) (meter : PlanningStateMeter N Other) : Prop where
  actions : ∀ action ∈ planner._planningActions, action.Reads
  distance : meter.distance.FactorsThrough IWriteState.view
  enough : meter.enough.FactorsThrough IWriteState.view

def Gather.withStatePool (gather : Gather N Other) (statePool : ObjectPool (IWriteState N Other)) : Gather N Other :=
  { gather with search := { gather.search with heap := { gather.search.heap with statePool } } }

/-- A child has been added. -/
def Gather.adopt (gather : Gather N Other) (action : ActionRef N Other) (path : Option Nat)
    (child : Trail N Other × Option N) (statePool : ObjectPool (IWriteState N Other)) : Gather N Other :=
  let (plan, heap) := Path.getNew gather.search.heap action path child.1.cost
  { search := { gather.search with
      heap := { heap with statePool }
      unvisitedPathes := gather.search.unvisitedPathes.pushLazy plan
      minDistance := child.2.getD gather.search.minDistance }
    plan := some plan }

/-- For one action `gather` adds the child of the trail, or nothing. -/
theorem gatherAction_eq (path : Option Nat) {action : ActionRef N Other} (reads : action.Reads)
    (distance : meter.distance.FactorsThrough IWriteState.view) (view : reachedByPath.view = trail.view) (min : N)
    (gather : Gather N Other) :
    ∃ statePool, gatherAction meter path reachedByPath trail.cost min gather action =
      match child meter trail min action with
      | none => gather.withStatePool statePool
      | some child => gather.adopt action path child statePool := by
  have allowed : action.allowed trail.view = action.canExecute reachedByPath :=
    view ▸ onView_view reads.canExecute reachedByPath
  have effect := ActionRef.execute_view reads reachedByPath gather.search.heap.statePool
  rw [view] at effect
  unfold gatherAction child measured
  rw [allowed, ← effect]
  cases action.canExecute reachedByPath with
  | error e => exact ⟨gather.search.heap.statePool, rfl⟩
  | ok answer =>
    cases answer with
    | false => exact ⟨gather.search.heap.statePool, rfl⟩
    | true =>
      generalize action.execute reachedByPath gather.search.heap.statePool = ran
      obtain ⟨next, statePool⟩ := ran
      cases next with
      | error e => exact ⟨statePool, rfl⟩
      | ok nextState =>
        simp only [Except.map, onView_view distance]
        cases meter.distance nextState with
        | error e => exact ⟨statePool, rfl⟩
        | ok distance => exact ⟨statePool.dispose nextState, rfl⟩

theorem gather_nothing (path : Option Nat) (distance : meter.distance.FactorsThrough IWriteState.view)
    (view : reachedByPath.view = trail.view) (min : N) {actions : List (ActionRef N Other)}
    (reads : ∀ action ∈ actions, action.Reads) (nothing : actions.filterMap (child meter trail min) = [])
    (gather : Gather N Other) :
    ∃ statePool, actions.foldl (gatherAction meter path reachedByPath trail.cost min) gather =
      gather.withStatePool statePool := by
  induction actions generalizing gather with
  | nil => exact ⟨gather.search.heap.statePool, rfl⟩
  | cons action actions ih =>
    rw [List.filterMap_eq_nil_iff] at nothing
    obtain ⟨own, rest⟩ := List.forall_mem_cons.mp nothing
    obtain ⟨first, others⟩ := List.forall_mem_cons.mp reads
    obtain ⟨statePool, ran⟩ := gatherAction_eq path first distance view min gather
    rw [own] at ran
    rw [List.foldl_cons, ran]
    exact ih others (List.filterMap_eq_nil_iff.mpr rest) _

/-- Every child joins the queue behind the trail's other ones. -/
theorem gather_children (distance : meter.distance.FactorsThrough IWriteState.view)
    (view : reachedByPath.view = trail.view) (min : N) {actions : List (ActionRef N Other)}
    (reads : ∀ action ∈ actions, action.Reads) (known : ∀ action ∈ actions, action ∈ planner._planningActions)
    {gather : Gather N Other} {machine : TwoList Nat} {frontier : TwoList (Trail N Other)}
    (front : Frontier planner initialState [] gather.search.heap gather.search.unvisitedPathes machine frontier)
    (parent : Parent planner initialState gather.search.heap machine.contents path trail) :
    let gathered := actions.foldl (gatherAction meter path reachedByPath trail.cost min) gather
    let children := actions.filterMap (child meter trail min)
    (∃ machine', Frontier planner initialState [] gathered.search.heap gathered.search.unvisitedPathes machine'
      { frontier with pending := frontier.pending ++ children.map Prod.fst }) ∧
    gathered.search.minDistance =
      children.foldl (fun minDistance child => child.2.getD minDistance) gather.search.minDistance ∧
    gathered.search.visitedStates = gather.search.visitedStates ∧
    gathered.search.expanded = gather.search.expanded ∧
    (gathered.plan = none → gather.plan = none ∧ children = []) := by
  induction actions generalizing gather machine frontier with
  | nil => exact ⟨⟨machine, by simpa using front⟩, rfl, rfl, rfl, fun missing => ⟨missing, rfl⟩⟩
  | cons action actions ih =>
    obtain ⟨first, others⟩ := List.forall_mem_cons.mp reads
    obtain ⟨own, rest⟩ := List.forall_mem_cons.mp known
    obtain ⟨statePool, ran⟩ := gatherAction_eq path first distance view min gather
    cases found : child meter trail min action with
    | none =>
      rw [found] at ran
      simp only [List.foldl_cons, ran, List.filterMap_cons, found]
      exact ih others rest (front.withStatePool statePool) ⟨parent.line, parent.view, parent.known⟩
    | some next =>
      rw [found] at ran
      obtain ⟨actions, effect⟩ := child_spec found
      have reached : outcome initialState.view next.1.actions = .ok next.1.view := by
        rw [actions, outcome, parent.view]
        exact effect
      obtain ⟨front', parent'⟩ := front.pushLazy parent actions reached own statePool
      have adopted : Frontier planner initialState [] (gather.adopt action path next statePool).search.heap
          (gather.adopt action path next statePool).search.unvisitedPathes _ _ := front'
      obtain ⟨⟨machine', front''⟩, distance', visited, expanded, plan⟩ := ih others rest adopted parent'
      simp only [List.foldl_cons, ran, List.filterMap_cons, found, List.map_cons]
      refine ⟨⟨machine', by simpa using front''⟩, distance', visited, expanded, ?_⟩
      intro missing
      cases (plan missing).1

/-- `gather` adds the children to the queue. Without any it gives the path back. -/
theorem gather_spec (readable : Readable planner meter) (view : reachedByPath.view = trail.view)
    (search : Search N Other) {machine : TwoList Nat} {frontier : TwoList (Trail N Other)}
    (front : Frontier planner initialState path.toList search.heap search.unvisitedPathes machine frontier)
    (parent : Parent planner initialState search.heap machine.contents path trail) :
    let after := gather planner meter path reachedByPath trail.cost search
    let (children, minDistance) := plainGather planner meter trail search.minDistance
    (∃ machine', Frontier planner initialState [] after.heap after.unvisitedPathes machine'
      { frontier with pending := frontier.pending ++ children }) ∧
    after.minDistance = minDistance ∧ after.visitedStates = search.visitedStates ∧
    after.expanded = reachedByPath :: search.expanded := by
  dsimp only
  unfold gather plainGather plainChildren
  let begun : Gather N Other := { search := { search with expanded := reachedByPath :: search.expanded }, plan := none }
  by_cases nothing : planner._planningActions.filterMap (child meter trail search.minDistance) = []
  · obtain ⟨statePool, ran⟩ :=
      gather_nothing path readable.distance view search.minDistance readable.actions nothing begun
    have kept := front.withStatePool statePool
    simp only [begun] at ran
    simp only [ran, nothing, List.map_nil, List.append_nil]
    cases path with
    | none => exact ⟨⟨machine, kept⟩, rfl, rfl, rfl⟩
    | some id =>
      obtain ⟨ids, line, apart⟩ := parent.line
      have own := line.found.1
      exact ⟨⟨machine, kept.dispose (apart id own).1 (line.lt_length id own)⟩, rfl, rfl, rfl⟩
  · have released : Frontier planner initialState [] begun.search.heap begun.search.unvisitedPathes machine frontier :=
      front.release
    obtain ⟨queued, distance, visited, expanded, plan⟩ := gather_children readable.distance view search.minDistance
      readable.actions (fun _ member => member) released parent
    simp only [begun] at queued distance visited expanded plan
    generalize planner._planningActions.foldl (gatherAction meter path reachedByPath trail.cost search.minDistance)
      { search := { search with expanded := reachedByPath :: search.expanded }, plan := none } = gathered at *
    obtain ⟨after, made⟩ := gathered
    cases made with
    | none => exact absurd (plan rfl).2 nothing
    | some made => exact ⟨queued, distance, visited, expanded⟩

end Planner

/-- Every path that waits stands for the trail in its place, and what has been visited is
what has been expanded. -/
structure Simulates (planner : Planner N Other) (initialState : IWriteState N Other) (search : Search N Other)
    (plain : PlainSearch N Other) : Prop where
  frontier : ∃ machine, Frontier planner initialState [] search.heap search.unvisitedPathes machine plain.frontier
  visited : ∀ state : IWriteState N Other, (search.visitedStates.at? state.toState).isSome ↔
    hashOf state.view.at? ∈ plain.expanded.map fun view => hashOf view.at?
  expanded : search.expanded.map IWriteState.view = plain.expanded
  minDistance : search.minDistance = plain.minDistance

/-- How two iterations end alike. -/
inductive Agrees (planner : Planner N Other) (initialState : IWriteState N Other) :
    LoopStatus N Other → PlainStatus N Other → Prop where
  | running {search : Search N Other} {plain : PlainSearch N Other} (next : Simulates planner initialState search plain) :
      Agrees planner initialState (.running search) (.running plain)
  | exhausted {search : Search N Other} (pool : PoolSound search.heap) : Agrees planner initialState (.exhausted search) .exhausted
  | reachedGoal {id : Nat} {search : Search N Other} {queued : List Nat} {trail : Trail N Other}
      (stands : StandsFor planner initialState search.heap queued id trail) (pool : PoolSound search.heap) :
      Agrees planner initialState (.reachedGoal id search) (.reachedGoal trail)
  | thrown {search : Search N Other} (e : Error) (pool : PoolSound search.heap) :
      Agrees planner initialState (.thrown e search) (.thrown e)

namespace Planner

omit [NumberOps N] in
theorem visited_setAt {visitedStates : StatesDictionary (IWriteState N Other)} {expanded : List (View N Other)}
    (visited : ∀ state : IWriteState N Other, (visitedStates.at? state.toState).isSome ↔
      hashOf state.view.at? ∈ expanded.map fun view => hashOf view.at?)
    (added state : IWriteState N Other) :
    ((visitedStates.setAt added.toState added).at? state.toState).isSome ↔
      hashOf state.view.at? ∈ (added.view :: expanded).map fun view => hashOf view.at? := by
  rw [StatesDictionary.at?_setAt, List.map_cons, List.mem_cons, ← visited, State.equals, hash_eq_hashOf, hash_eq_hashOf]
  by_cases same : hashOf state.view.at? = hashOf added.view.at? <;> simp [same]

theorem start_simulates (readable : Readable planner meter) {heap : Heap N Other} (pool : PoolSound heap)
    (initialState : IWriteState N Other) :
    Simulates planner initialState (start planner meter initialState heap) (plainStart planner meter initialState.view) := by
  have front : Frontier planner initialState (Option.toList none) heap .new TwoList.new TwoList.new :=
    ⟨.new, pool, List.nodup_nil, .nil, .nil⟩
  have parent : Parent planner initialState heap (TwoList.contents (TwoList.new : TwoList Nat)) none
      (root initialState.view) :=
    ⟨⟨[], .root, by simp⟩, rfl, by simp [root]⟩
  let begun : Search N Other :=
    { heap
      unvisitedPathes := .new
      visitedStates := StatesDictionary.new.setAt initialState.toState initialState
      minDistance := number 1
      analyzedPaths := 0
      rejectedPaths := 0
      expanded := [] }
  obtain ⟨⟨machine, front⟩, minDistance, visited, expanded⟩ := gather_spec readable rfl begun front parent
  refine ⟨⟨_, front.isEmpty.2⟩, ?_, ?_, minDistance⟩
  · intro state
    have before : ∀ state : IWriteState N Other,
        ((StatesDictionary.new : StatesDictionary (IWriteState N Other)).at? state.toState).isSome ↔
          hashOf state.view.at? ∈ ([] : List (View N Other)).map fun view => hashOf view.at? := by
      intro state
      simp [StatesDictionary.at?, StatesDictionary.new]
    simp only [start, begun, root] at visited ⊢
    rw [visited]
    exact visited_setAt before initialState state
  · simp only [start, begun, root] at expanded ⊢
    rw [expanded]
    rfl

/-- What is at the end of a path is seen, told or expanded as without objects. -/
theorem visit_agrees (readable : Readable planner meter) {search : Search N Other} {plain : PlainSearch N Other}
    {queue : PrioritizedQueue Nat} {machine : TwoList Nat} {frontier : TwoList (Trail N Other)} {id : Nat}
    (visited : ∀ state : IWriteState N Other, (search.visitedStates.at? state.toState).isSome ↔
      hashOf state.view.at? ∈ plain.expanded.map fun view => hashOf view.at?)
    (expanded : search.expanded.map IWriteState.view = plain.expanded)
    (minDistance : search.minDistance = plain.minDistance)
    (front : Frontier planner initialState [id] search.heap queue machine frontier)
    (stands : StandsFor planner initialState search.heap (id :: machine.contents) id trail) :
    Agrees planner initialState (visit planner meter initialState id { search with unvisitedPathes := queue })
      (if hashOf trail.view.at? ∈ plain.expanded.map fun view => hashOf view.at? then .running { plain with frontier }
      else
        match onView meter.enough trail.view with
        | .error e => .thrown e
        | .ok true => .reachedGoal trail
        | .ok false =>
          let (children, minDistance) := plainGather planner meter trail plain.minDistance
          .running ⟨{ frontier with pending := frontier.pending ++ children }, trail.view :: plain.expanded,
            minDistance⟩) := by
  obtain ⟨ids, line, apart⟩ := stands.line
  have reads : ∀ action ∈ trail.actions, action.Reads := fun action member =>
    readable.actions action (stands.known action member)
  obtain ⟨reached, executed⟩ := Path.executeFrom_spec (separates_eq initialState) line line.length_le reads rfl
  rw [stands.view] at reached
  unfold visit Path.executeFromRoot
  generalize Path.executeFrom search.heap.paths.length search.heap id initialState = ran at reached executed ⊢
  obtain ⟨answer, heap⟩ := ran
  cases answer with
  | error e => cases reached
  | ok reachedByPath =>
    have view : reachedByPath.view = trail.view := Except.ok.inj reached
    have front' := front.executed executed
    have stands' := stands.executed executed
    obtain ⟨ids, line, apart⟩ := stands'.line
    have own := line.found.1
    by_cases seen : hashOf trail.view.at? ∈ plain.expanded.map fun view => hashOf view.at?
    · obtain ⟨stored, found⟩ := Option.isSome_iff_exists.mp ((visited reachedByPath).mpr (view ▸ seen))
      simp only [found, if_pos seen]
      exact .running ⟨⟨machine, front'.dispose (apart id own).1 (line.lt_length id own)⟩, visited, expanded, minDistance⟩
    · have found : search.visitedStates.at? reachedByPath.toState = none := by
        rw [← Option.not_isSome_iff_eq_none, visited, view]
        exact seen
      have asked : onView meter.enough trail.view = meter.enough reachedByPath :=
        view ▸ onView_view readable.enough reachedByPath
      simp only [found, if_neg seen, asked, ← minDistance]
      cases meter.enough reachedByPath with
      | error e => exact .thrown e front'.pool
      | ok answer =>
        cases answer with
        | true => exact .reachedGoal stands' front'.pool
        | false =>
          have distinct := (List.nodup_cons.mp front'.distinct).1
          have parent : Parent planner initialState heap machine.contents (some id) trail := by
            refine ⟨⟨ids, line, ?_⟩, stands'.view, stands'.known⟩
            intro other member
            obtain ⟨out, alone⟩ := apart other member
            refine ⟨out, ?_⟩
            intro waiting
            rw [alone (List.mem_cons_of_mem _ waiting)] at waiting
            exact distinct waiting
          let continued : Search N Other :=
            { search with
              heap
              unvisitedPathes := queue
              visitedStates := search.visitedStates.setAt reachedByPath.toState reachedByPath }
          obtain ⟨⟨machine', gathered⟩, distance', visited', expanded'⟩ :=
            gather_spec readable view continued front' parent
          simp only [continued, ← stands'.cost] at gathered distance' visited' expanded'
          refine .running ⟨⟨machine', gathered⟩, ?_, ?_, distance'⟩
          · intro state
            simp only [visited']
            rw [← view]
            exact visited_setAt visited reachedByPath state
          · simp only [expanded', List.map_cons, expanded, view]

/-- One iteration of the main loop does what it does without objects. -/
theorem loopStep_agrees (readable : Readable planner meter) {search : Search N Other} {plain : PlainSearch N Other}
    (simulates : Simulates planner initialState search plain) :
    Agrees planner initialState (loopStep planner meter initialState search) (plainStep planner meter plain) := by
  obtain ⟨⟨machine, front⟩, visited, expanded, minDistance⟩ := simulates
  obtain ⟨answer, settled⟩ := front.isEmpty
  unfold loopStep plainStep
  rw [← TwoList.pop_settle]
  generalize PrioritizedQueue.isEmpty (Path.cost search.heap) search.unvisitedPathes = asked at answer settled ⊢
  obtain ⟨finished, queue⟩ := asked
  simp only at answer settled ⊢
  rcases settled.pop with ⟨nothing, drained⟩ | ⟨path, trail, queue', machine', frontier', popped, popped', front', stands⟩
  · have vacant : plain.frontier.settle.active = [] := (List.append_eq_nil_iff.mp drained).1
    have through : finished = true := by
      rw [answer, vacant]
      rfl
    simp only [through, ↓reduceIte]
    generalize plain.frontier.settle.pop (PrioritizedQueue.priority Trail.cost) planner.unvisitedPathes.discipline =
      taken at nothing ⊢
    obtain ⟨first, rest⟩ := taken
    simp only at nothing
    subst nothing
    exact .exhausted front.pool
  · have going : finished = false := by
      rw [answer, List.isEmpty_eq_false_iff]
      intro vacant
      have drained := TwoList.settle_active_nil vacant
      rcases TwoList.pop_contents (PrioritizedQueue.priority Trail.cost) planner.unvisitedPathes.discipline
        plain.frontier.settle with ⟨_, nothing, _⟩ | ⟨_, _, moved⟩
      · rw [popped'] at nothing
        cases nothing
      · rw [TwoList.settle_contents, drained] at moved
        cases moved.length_eq
    simp only [going, Bool.false_eq_true, ↓reduceIte, popped, popped']
    exact visit_agrees readable visited expanded minDistance front' stands

end Planner

end Goap.AS3
