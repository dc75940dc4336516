import Goap.AS3.MakePlan
import Goap.Foundation.RelatedQueues
import Goap.Foundation.VisitedSearch

namespace Goap.AS3

open NumberOps Foundation

variable {N Other : Type} [ToString Other]

/-- The hash by which states with these values are known. -/
noncomputable def hashOf (at? : String → Option (Value Other)) : UInt32 :=
  Function.extend Object.at? hashObject (fun _ => 0) at?

theorem hashOf_at? (object : Object Other) : hashOf object.at? = hashObject object := by
  have reads : (@hashObject Other _).FactorsThrough Object.at? := by
    intro object other same
    exact hashObject_of_bytes (bytes_congr same .new .new)
  exact reads.extend_apply _ object

theorem hash_eq_hashOf (state : IWriteState N Other) : state.toState.hash.1 = hashOf state.view.at? := by
  rw [State.hash_eq, ← hashOf_at?]
  rfl

/-- A path as what it stands for: its actions, the last one first, its cost and its end. -/
structure Trail (N Other : Type) [ToString Other] where
  actions : List (ActionRef N Other)
  cost : N
  view : View N Other

structure PlainSearch (N Other : Type) [ToString Other] where
  frontier : TwoList (Trail N Other)
  expanded : List (View N Other)
  minDistance : N

/-- The search as one on a graph of views. -/
def PlainSearch.visited (plain : PlainSearch N Other) : VisitedSearch (View N Other) (ActionRef N Other) :=
  ⟨plain.expanded, plain.frontier.contents.map fun trail => (trail.actions.reverse, trail.view)⟩

inductive PlainStatus (N Other : Type) [ToString Other] where
  | running (plain : PlainSearch N Other)
  | exhausted
  | reachedGoal (trail : Trail N Other)
  | thrown (e : Error)

namespace Planner

variable [NumberOps N] (planner : Planner N Other) (meter : PlanningStateMeter N Other)

/-- What an action leads to, with the distance of that. -/
noncomputable def measured (view : View N Other) (action : ActionRef N Other) : Option (View N Other × N) :=
  match action.allowed view with
  | .ok true =>
    match action.effect view with
    | .error _ => none
    | .ok next =>
      match onView meter.distance next with
      | .error _ => none
      | .ok distance => some (next, distance)
  | _ => none

noncomputable def child (trail : Trail N Other) (min : N) (action : ActionRef N Other) : Option (Trail N Other × Option N) :=
  (measured meter trail.view action).map fun next =>
    let costs := pathCosts meter trail.cost min next.2 next.1.cost
    (⟨action :: trail.actions, costs.1, next.1⟩, costs.2)

noncomputable def plainChildren (trail : Trail N Other) (min : N) : List (Trail N Other × Option N) :=
  planner._planningActions.filterMap (child meter trail min)

noncomputable def plainGather (trail : Trail N Other) (min : N) : List (Trail N Other) × N :=
  ((plainChildren planner meter trail min).map Prod.fst,
    (plainChildren planner meter trail min).foldl (fun minDistance child => child.2.getD minDistance) min)

def root (initial : View N Other) : Trail N Other := ⟨[], number 0, initial⟩

noncomputable def plainStart (initial : View N Other) : PlainSearch N Other :=
  let (children, minDistance) := plainGather planner meter (root initial) (number 1)
  ⟨TwoList.settle ⟨[], children⟩, [initial], minDistance⟩

/-- Take the path that is due and see what is at its end. -/
noncomputable def plainStep (plain : PlainSearch N Other) : PlainStatus N Other :=
  match plain.frontier.pop (PrioritizedQueue.priority Trail.cost) planner.unvisitedPathes.discipline with
  | (none, _) => .exhausted
  | (some trail, frontier) =>
    if hashOf trail.view.at? ∈ plain.expanded.map fun view => hashOf view.at? then .running { plain with frontier }
    else
      match onView meter.enough trail.view with
      | .error e => .thrown e
      | .ok true => .reachedGoal trail
      | .ok false =>
        let (children, minDistance) := plainGather planner meter trail plain.minDistance
        .running ⟨{ frontier with pending := frontier.pending ++ children }, trail.view :: plain.expanded, minDistance⟩

/-- What can be read along a path, from the root on. -/
noncomputable def along (initial : View N Other) : List (ActionRef N Other) → List (View N Other)
  | [] => []
  | action :: before =>
    match outcome initial (action :: before) with
    | .error _ => along initial before
    | .ok view => along initial before ++ [view]

/-- The plan and what can be read along it, or nothing. -/
noncomputable def plainLoop (initial : View N Other) :
    Nat → PlainSearch N Other → Option (Except Error (Option (List (ActionRef N Other) × List (View N Other))))
  | 0, _ => none
  | fuel + 1, plain =>
    match plainStep planner meter plain with
    | .running plain => plainLoop initial fuel plain
    | .exhausted => some (.ok none)
    | .reachedGoal trail => some (.ok (some (trail.actions.reverse, along initial trail.actions)))
    | .thrown e => some (.error e)

noncomputable def plainPlan (initial : View N Other) (fuel : Nat) :
    Option (Except Error (Option (List (ActionRef N Other) × List (View N Other)))) :=
  plainLoop planner meter initial fuel (plainStart planner meter initial)

/-- The graph that the planner searches; what it cannot measure it does not reach. -/
noncomputable def graph : KeyedGraph (View N Other) (ActionRef N Other) UInt32 where
  labels := planner._planningActions
  next view action := (measured meter view action).map Prod.fst
  key view := hashOf view.at?
  goal view :=
    match onView meter.enough view with
    | .ok answer => answer
    | .error _ => false

variable {planner meter} {initial : View N Other} {plain : PlainSearch N Other}

theorem measured_spec {view : View N Other} {action : ActionRef N Other} {next : View N Other × N}
    (found : measured meter view action = some next) :
    action.allowed view = .ok true ∧ action.effect view = .ok next.1 ∧ onView meter.distance next.1 = .ok next.2 := by
  unfold measured at found
  split at found
  · rename_i allowed
    split at found
    · cases found
    · rename_i effect
      split at found
      · cases found
      · rename_i distance
        cases found
        exact ⟨allowed, effect, distance⟩
  · cases found

theorem child_spec {trail : Trail N Other} {min : N} {action : ActionRef N Other} {next : Trail N Other × Option N}
    (found : child meter trail min action = some next) :
    next.1.actions = action :: trail.actions ∧ action.effect trail.view = .ok next.1.view := by
  obtain ⟨reached, measuring, rfl⟩ := Option.map_eq_some_iff.mp found
  exact ⟨rfl, (measured_spec measuring).2.1⟩

theorem plainGather_children (trail : Trail N Other) (min : N) :
    ((plainGather planner meter trail min).1.map fun child => (child.actions.reverse, child.view)) =
      (graph planner meter).children (trail.actions.reverse, trail.view) := by
  simp only [plainGather, plainChildren, KeyedGraph.children, graph, List.map_filterMap, Option.map_map]
  congr 1
  funext action
  cases found : measured meter trail.view action <;> simp [child, found]

theorem mem_visited_keys {view : View N Other} :
    (hashOf view.at? ∈ plain.expanded.map fun view => hashOf view.at?) ↔
      ∃ node ∈ plain.expanded, (graph planner meter).key node = (graph planner meter).key view :=
  List.mem_map

theorem plainStart_visited (planner : Planner N Other) (meter : PlanningStateMeter N Other) (initial : View N Other) :
    (plainStart planner meter initial).visited = (graph planner meter).start initial := by
  simp only [PlainSearch.visited, plainStart, TwoList.settle_contents, KeyedGraph.start]
  exact congrArg _ (plainGather_children (root initial) (number 1))

theorem plainStart_run (planner : Planner N Other) (meter : PlanningStateMeter N Other) (initial : View N Other) :
    (graph planner meter).Run initial (plainStart planner meter initial).visited :=
  plainStart_visited planner meter initial ▸ .start

/-- What one iteration does to the search on the graph. -/
inductive PlainIteration (planner : Planner N Other) (meter : PlanningStateMeter N Other)
    (plain : PlainSearch N Other) : PlainStatus N Other → Prop where
  | exhausted (drained : plain.frontier.contents = []) : PlainIteration planner meter plain .exhausted
  | running (step : (graph planner meter).Step plain.visited next.visited) :
      PlainIteration planner meter plain (.running next)
  | reachedGoal (taken : trail ∈ plain.frontier.contents) (enough : onView meter.enough trail.view = .ok true)
      (fresh : ∀ node ∈ plain.expanded, hashOf node.at? ≠ hashOf trail.view.at?) :
      PlainIteration planner meter plain (.reachedGoal trail)
  | thrown (taken : trail ∈ plain.frontier.contents) (failed : onView meter.enough trail.view = .error e) :
      PlainIteration planner meter plain (.thrown e)

theorem plainStep_iteration (planner : Planner N Other) (meter : PlanningStateMeter N Other)
    (plain : PlainSearch N Other) : PlainIteration planner meter plain (plainStep planner meter plain) := by
  unfold plainStep
  have contents := TwoList.pop_contents (PrioritizedQueue.priority Trail.cost) planner.unvisitedPathes.discipline
    plain.frontier
  generalize plain.frontier.pop (PrioritizedQueue.priority Trail.cost) planner.unvisitedPathes.discipline =
    popped at contents ⊢
  obtain ⟨first, frontier⟩ := popped
  rcases contents with ⟨drained, nothing, _⟩ | ⟨trail, taken, moved⟩
  · simp only at nothing
    subst nothing
    exact .exhausted drained
  · simp only at taken moved
    subst taken
    have waiting := moved.map fun trail => (trail.actions.reverse, trail.view)
    rw [List.map_cons] at waiting
    have member : trail ∈ plain.frontier.contents := moved.mem_iff.mpr List.mem_cons_self
    dsimp only
    split
    · rename_i seen
      exact .running (.rejected waiting (mem_visited_keys.mp seen))
    · rename_i unseen
      have fresh : ∀ node ∈ plain.expanded, hashOf node.at? ≠ hashOf trail.view.at? := fun node present same =>
        unseen (List.mem_map.mpr ⟨node, present, same⟩)
      cases enough : onView meter.enough trail.view with
      | error e => exact .thrown member enough
      | ok answer =>
        cases answer with
        | true => exact .reachedGoal member enough fresh
        | false =>
          have noGoal : (graph planner meter).goal trail.view = false := by simp [graph, enough]
          let children := plainGather planner meter trail plain.minDistance
          have grown : ((frontier.contents ++ children.1).map fun trail => (trail.actions.reverse, trail.view)).Perm
              (frontier.contents.map (fun trail => (trail.actions.reverse, trail.view)) ++
                (graph planner meter).children (trail.actions.reverse, trail.view)) := by
            rw [List.map_append, plainGather_children]
          have step : (graph planner meter).Step plain.visited
              ⟨(trail.actions.reverse, trail.view).2 :: plain.expanded, _⟩ := .expanded waiting fresh noGoal grown
          rw [TwoList.contents, List.append_assoc] at step
          exact .running step

end Planner

end Goap.AS3
