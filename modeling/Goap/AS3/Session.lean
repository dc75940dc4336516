import Goap.AS3.Simulation

namespace Goap.AS3

open NumberOps Foundation

variable {N Other : Type} [ToString Other] [NumberOps N] {planner : Planner N Other}
  {meter : PlanningStateMeter N Other} {initialState : IWriteState N Other}

def PlanResult.read (result : PlanResult N Other) : Option (List (ActionRef N Other)) × Option (List (View N Other)) :=
  (result.actionsArray, result.states.map fun states => states.map IWriteState.view)

def PlanResult.readEnd : Except (Thrown (PlanLeft N Other)) (PlanResult N Other) →
    Except Error (Option (List (ActionRef N Other)) × Option (List (View N Other)))
  | .ok result => .ok result.read
  | .error thrown => .error thrown.error

/-- The arrays of the caller after a plan has been put in front of what they hold, or after
there was none. -/
def told (actionsArray : Option (List (ActionRef N Other))) (states : Option (List (View N Other))) :
    Option (List (ActionRef N Other) × List (View N Other)) →
      Option (List (ActionRef N Other)) × Option (List (View N Other))
  | none => (none, states)
  | some (actions, views) => (some (actions ++ actionsArray.getD []), states.map fun states => views ++ states)

theorem outcome_cons {initial view : View N Other} {action : ActionRef N Other} {before : List (ActionRef N Other)}
    (reached : outcome initial (action :: before) = .ok view) : ∃ earlier, outcome initial before = .ok earlier := by
  rw [outcome] at reached
  cases prior : outcome initial before with
  | error e =>
    rw [prior] at reached
    cases reached
  | ok earlier => exact ⟨earlier, rfl⟩

namespace Path

/-- The states along a path, in front of those that were there. -/
theorem getStatesLoop_spec {heap : Heap N Other} {start : Option Nat} {ids : List Nat}
    {actions : List (ActionRef N Other)} {view : View N Other}
    (line : Line (· = initialState) heap.paths start ids actions) (reads : ∀ action ∈ actions, action.Reads)
    (reached : outcome initialState.view actions = .ok view) (states : List (IWriteState N Other)) :
    (getStatesLoop initialState ids states heap).1.map (fun states => states.map IWriteState.view) =
        .ok (Planner.along initialState.view actions ++ states.map IWriteState.view) ∧
      Executed (· = initialState) heap (getStatesLoop initialState ids states heap).2 := by
  induction actions generalizing heap start ids view states with
  | nil =>
    cases line
    exact ⟨rfl, .refl heap⟩
  | cons action actions ih =>
    cases line with
    | child found fresh memo before =>
      have line := Line.child found fresh memo before
      obtain ⟨told, executed⟩ := executeFrom_spec (separates_eq initialState) line line.length_le reads rfl
      obtain ⟨earlier, reached'⟩ := outcome_cons reached
      unfold getStatesLoop executeFromRoot
      rw [reached] at told
      generalize executeFrom heap.paths.length heap _ initialState = ran at told executed ⊢
      obtain ⟨answer, heap'⟩ := ran
      cases answer with
      | error e => cases told
      | ok state =>
        have seen : state.view = view := Except.ok.inj told
        have others : ∀ action ∈ actions, action.Reads := fun action member => reads action (List.mem_cons_of_mem _ member)
        obtain ⟨listed, rest⟩ := ih (before.updated executed.paths) others reached' (state :: states)
        refine ⟨?_, executed.trans rest⟩
        simp only [listed, Planner.along, reached, List.map_cons, seen, List.append_assoc, List.cons_append, List.nil_append]

theorem getActions_spec {heap : Heap N Other} {id : Nat} {ids : List Nat} {actions : List (ActionRef N Other)}
    (line : Line (· = initialState) heap.paths (some id) ids actions) (given : List (ActionRef N Other)) :
    getActions heap id given = actions.reverse ++ given := by
  have unshift : ∀ (lineage : List (Nat × Path N Other)) (given : List (ActionRef N Other)),
      lineage.foldl (fun actions path => path.2._action :: actions) given =
        (lineage.map (·.2._action)).reverse ++ given := by
    intro lineage
    induction lineage with
    | nil => exact fun _ => rfl
    | cons path rest ih =>
      intro given
      simp [ih]
  rw [getActions, unshift, (line.lineage line.length_le).2]

end Path

namespace Planner

/-- What the caller is told at a goal. -/
theorem reportGoal_spec (readable : Readable planner meter) {search : Search N Other} {queued : List Nat} {id : Nat}
    {trail : Trail N Other} (stands : StandsFor planner initialState search.heap queued id trail)
    (pool : PoolSound search.heap) (actionsArray : Option (List (ActionRef N Other)))
    (states : Option (List (IWriteState N Other))) :
    ∃ result, reportGoal initialState actionsArray states id search = .ok result ∧
      result.read = told actionsArray (states.map fun states => states.map IWriteState.view)
        (some (trail.actions.reverse, along initialState.view trail.actions)) ∧
      PoolSound result.search.heap := by
  obtain ⟨ids, line, apart⟩ := stands.line
  have own := line.found.1
  have actions := Path.getActions_spec line (actionsArray.getD [])
  unfold reportGoal
  cases states with
  | none =>
    exact ⟨_, rfl, by simp [PlanResult.read, told, actions], pool.dispose (apart id own).1 (line.lt_length id own)⟩
  | some states =>
    have reads : ∀ action ∈ trail.actions, action.Reads := fun action member =>
      readable.actions action (stands.known action member)
    obtain ⟨listed, executed⟩ := Path.getStatesLoop_spec line reads stands.view states
    have ids_eq := (line.lineage line.length_le).1
    simp only [Path.getStates, ids_eq]
    generalize Path.getStatesLoop initialState ids states search.heap = ran at listed executed ⊢
    obtain ⟨answer, heap⟩ := ran
    cases answer with
    | error e => cases listed
    | ok reached =>
      have shown : reached.map IWriteState.view = along initialState.view trail.actions ++ states.map IWriteState.view :=
        Except.ok.inj listed
      have line' := line.updated executed.paths
      refine ⟨_, rfl, by simp [PlanResult.read, told, actions, shown], ?_⟩
      refine (pool.executed executed).dispose ?_ (line'.lt_length id own)
      rw [executed.pathPool]
      exact (apart id own).1

/-- The main loop tells the caller what the loop without objects ends with. -/
theorem mainLoop_spec (readable : Readable planner meter) (actionsArray : Option (List (ActionRef N Other)))
    (states : Option (List (IWriteState N Other))) (fuel : Nat) {search : Search N Other} {plain : PlainSearch N Other}
    (simulates : Simulates planner initialState search plain) :
    (mainLoop planner meter initialState actionsArray states fuel search).map PlanResult.readEnd =
        (plainLoop planner meter initialState.view fuel plain).map
          (Except.map (told actionsArray (states.map fun states => states.map IWriteState.view))) ∧
      (∀ result, mainLoop planner meter initialState actionsArray states fuel search = some (.ok result) →
        PoolSound result.search.heap) ∧
      ∀ thrown, mainLoop planner meter initialState actionsArray states fuel search = some (.error thrown) →
        thrown.left.actionsArray = actionsArray ∧ thrown.left.states = states ∧ PoolSound thrown.left.heap := by
  induction fuel generalizing search plain with
  | zero => exact ⟨rfl, by simp [mainLoop], by simp [mainLoop]⟩
  | succ fuel ih =>
    unfold mainLoop plainLoop
    have agrees := loopStep_agrees readable simulates
    generalize loopStep planner meter initialState search = status at agrees ⊢
    generalize plainStep planner meter plain = plainStatus at agrees ⊢
    cases agrees with
    | running next => exact ih next
    | exhausted pool =>
      refine ⟨rfl, ?_, fun _ ended => by cases ended⟩
      intro result ended
      cases ended
      exact pool
    | reachedGoal stands pool =>
      obtain ⟨result, ended, read, pool'⟩ := reportGoal_spec readable stands pool actionsArray states
      simp only [ended, Option.map_some, PlanResult.readEnd, Except.map, read]
      refine ⟨trivial, ?_, fun _ ended => by cases ended⟩
      intro other same
      cases same
      exact pool'
    | thrown e pool =>
      refine ⟨rfl, (fun _ ended => by cases ended), ?_⟩
      intro thrown ended
      cases ended
      exact ⟨rfl, rfl, pool⟩

end Planner

/-- The heaps that calls of `makePlan` leave, one after the other, also where they throw. Between them anything may
be done to the pool of states. -/
inductive Session : Heap N Other → Prop where
  | new : Session ⟨[], .new, .new⟩
  | statePool {heap : Heap N Other} (before : Session heap) (statePool : ObjectPool (IWriteState N Other)) :
      Session { heap with statePool }
  | planned {heap : Heap N Other} {planner : Planner N Other} {meter : PlanningStateMeter N Other}
      {initialState : IWriteState N Other} {result : PlanResult N Other} (before : Session heap) (readable : planner.Readable meter)
      (ended : planner.makePlan meter initialState heap actionsArray states fuel = some (.ok result)) :
      Session result.search.heap
  | thrown {heap : Heap N Other} {planner : Planner N Other} {meter : PlanningStateMeter N Other}
      {initialState : IWriteState N Other} {thrown : Thrown (PlanLeft N Other)} (before : Session heap)
      (readable : planner.Readable meter)
      (ended : planner.makePlan meter initialState heap actionsArray states fuel = some (.error thrown)) :
      Session thrown.left.heap

namespace Session

theorem pool {heap : Heap N Other} (session : Session heap) : PoolSound heap := by
  induction session with
  | new => exact ⟨List.nodup_nil, by simp [ObjectPool.new]⟩
  | statePool _ _ ih => exact ⟨ih.distinct, ih.made⟩
  | planned _ readable ended ih =>
    exact (Planner.mainLoop_spec readable _ _ _ (Planner.start_simulates readable ih _)).2.1 _ ended
  | thrown _ readable ended ih =>
    exact ((Planner.mainLoop_spec readable _ _ _ (Planner.start_simulates readable ih _)).2.2 _ ended).2.2

/-- Pools and memos do not show in a plan. -/
theorem makePlan_eq_plainPlan {heap : Heap N Other} (session : Session heap) (readable : planner.Readable meter)
    (initialState : IWriteState N Other) (actionsArray : Option (List (ActionRef N Other)))
    (states : Option (List (IWriteState N Other))) (fuel : Nat) :
    (planner.makePlan meter initialState heap actionsArray states fuel).map PlanResult.readEnd =
      (planner.plainPlan meter initialState.view fuel).map
        (Except.map (told actionsArray (states.map fun states => states.map IWriteState.view))) :=
  (Planner.mainLoop_spec readable actionsArray states fuel
    (Planner.start_simulates readable session.pool initialState)).1

end Session

/-- The goal that a lift is on some floor. -/
def toFloor (goal : ℕ) : PlanningStateMeter ℚ ℕ where
  goalState := onFloor goal
  monotonic := false
  distance state := .ok |(goal : ℚ) - floorOf state|
  enough state := .ok (floorOf state == goal)

def lift (top : ℕ) (steps : List ℕ) : Planner ℚ ℕ := ⟨.BreadthFirst, steps.map (rise top)⟩

theorem lift_readable (top : ℕ) (steps : List ℕ) (goal : ℕ) : (lift top steps).Readable (toFloor goal) where
  actions action member := by
    obtain ⟨floors, _, rfl⟩ := List.mem_map.mp member
    exact rise_reads top floors
  distance state other same := by simp only [toFloor, floorOf_congr same]
  enough state other same := by simp only [toFloor, floorOf_congr same]

theorem floors_apart : ∀ floor ≤ 3, ∀ other ≤ 3,
    (onFloor floor).toState.hash.1 = (onFloor other).toState.hash.1 → floor = other := by decide +kernel

theorem Session.makePlan_lift :
    ((lift 3 [1, 2]).makePlan (toFloor 3) (onFloor 0) ⟨[], .new, .new⟩ none (some []) 9).map PlanResult.readEnd =
      ((lift 3 [1, 2]).plainPlan (toFloor 3) (onFloor 0).view 9).map (Except.map (told none (some []))) :=
  Session.makePlan_eq_plainPlan .new (lift_readable 3 [1, 2] 3) (onFloor 0) none (some []) 9

/-- The paths in the arrays of a queue and those that are lazy. -/
def PrioritizedQueue.Waits {P : Type} (q : PrioritizedQueue P) (path : P) : Prop :=
  (∃ key, path ∈ q.bucket key) ∨ path ∈ q._lazyArray

theorem PrioritizedQueue.Refines.waits_iff {P : Type} {cost : P → N} {q : PrioritizedQueue P} {machine : TwoList P}
    (refines : Refines cost q machine) (path : P) : q.Waits path ↔ path ∈ machine.contents := by
  obtain ⟨holds, pending⟩ := refines
  rw [Waits, TwoList.contents, List.mem_append, pending]
  refine or_congr_left ⟨?_, ?_⟩
  · intro stored
    obtain ⟨key, inside⟩ := stored
    rw [holds.buckets] at inside
    exact (List.mem_filter.mp inside).1
  · intro member
    refine ⟨icost cost path, ?_⟩
    rw [holds.buckets]
    exact List.mem_filter.mpr ⟨member, by simp⟩

theorem Planner.Explored.simulates {heap : Heap N Other} {search : Search N Other} (pool : PoolSound heap)
    (readable : planner.Readable meter) (explored : planner.Explored meter initialState heap search) :
    ∃ plain, Simulates planner initialState search plain ∧
      (planner.graph meter).Run initialState.view plain.visited := by
  induction explored with
  | start => exact ⟨_, start_simulates readable pool initialState, plainStart_run planner meter initialState.view⟩
  | @step search search' before ran ih =>
    obtain ⟨plain, simulates, run⟩ := ih
    have agrees := loopStep_agrees readable simulates
    have iteration := plainStep_iteration planner meter plain
    rw [ran] at agrees
    generalize planner.plainStep meter plain = status at agrees iteration
    cases agrees with
    | running next =>
      cases iteration with
      | running step => exact ⟨_, next, run.step step⟩

/-- At the head of the loop no path is in the pool that waits or is on the way from one that
waits to its root. Executing a path that waits does what its actions do, and does not throw. -/
theorem Session.waiting_in_use {heap : Heap N Other} {search : Search N Other} (session : Session heap)
    (readable : planner.Readable meter) (explored : planner.Explored meter initialState heap search) :
    search.heap.pathPool._objects.Nodup ∧ ∀ id, search.unvisitedPathes.Waits id →
      (∀ link ∈ Path.lineage search.heap.paths.length search.heap.paths (some id),
        link.1 ∉ search.heap.pathPool._objects ∧ (search.unvisitedPathes.Waits link.1 → link.1 = id)) ∧
      ∃ state, (Path.executeFromRoot search.heap id initialState).1 = .ok state ∧
        outcome initialState.view (Path.getActions search.heap id []).reverse = .ok state.view := by
  obtain ⟨plain, ⟨⟨machine, front⟩, _, _, _⟩, _⟩ := explored.simulates session.pool readable
  refine ⟨front.pool.distinct, ?_⟩
  intro id waits
  rw [front.queue.waits_iff] at waits
  obtain ⟨trail, stands⟩ := front.stands waits
  obtain ⟨ids, line, apart⟩ := stands.line
  obtain ⟨listed, _⟩ := line.lineage line.length_le
  refine ⟨?_, ?_⟩
  · intro link member
    have inside : link.1 ∈ ids := by
      rw [← listed]
      exact List.mem_map_of_mem member
    rw [front.queue.waits_iff]
    exact apart link.1 inside
  · have reads : ∀ action ∈ trail.actions, action.Reads := fun action member =>
      readable.actions action (stands.known action member)
    have reached := (Path.executeFrom_spec (separates_eq initialState) line line.length_le reads rfl).1
    rw [Path.getActions_spec line, List.append_nil, List.reverse_reverse, stands.view]
    rw [stands.view] at reached
    cases found : (Path.executeFromRoot search.heap id initialState).1 with
    | error e =>
      rw [Path.executeFromRoot] at found
      rw [found] at reached
      cases reached
    | ok state =>
      rw [Path.executeFromRoot] at found
      rw [found] at reached
      exact ⟨state, rfl, reached.symm⟩

theorem Session.waiting_in_use_lift :
    let search := (lift 3 [1, 2]).start (toFloor 3) (onFloor 0) ⟨[], .new, .new⟩
    search.unvisitedPathes.Waits 1 ∧ search.heap.pathPool._objects.Nodup ∧
      ∃ state, (Path.executeFromRoot search.heap 1 (onFloor 0)).1 = .ok state := by
  have waits : ((lift 3 [1, 2]).start (toFloor 3) (onFloor 0) ⟨[], .new, .new⟩).unvisitedPathes.Waits 1 :=
    .inl ⟨10000000, by decide +kernel⟩
  obtain ⟨distinct, used⟩ := Session.waiting_in_use .new (lift_readable 3 [1, 2] 3) .start
  obtain ⟨_, state, ran, _⟩ := used 1 waits
  exact ⟨waits, distinct, state, ran⟩

end Goap.AS3
