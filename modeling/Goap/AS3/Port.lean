import Goap.AS3.Session
import Goap.Search.CostResolution
import Goap.Search.Soundness

/-! The planner in C++ is a port of the one in ActionScript. Where states, actions and
meters correspond and the prices of the paths that wait are ordered alike, both make the same
plan. Numbers are exact. -/

namespace Goap.AS3

open NumberOps Foundation

variable {Other : Type} [ToString Other]

/-- Both answer, with what corresponds, or both throw. -/
inductive Alike {A B : Type} (related : A → B → Prop) : Except Exn A → Except Error B → Prop where
  | ok (same : related a b) : Alike related (.ok a) (.ok b)
  | thrown : Alike related (.error e) (.error e')

structure Counterpart (alike : Goap.State ℚ → View ℚ Other → Prop) (action : Goap.PlanningAction ℚ)
    (original : ActionRef ℚ Other) : Prop where
  allowed : ∀ state view, alike state view → (action.canExecute state = .ok true ↔ original.allowed view = .ok true)
  effect : ∀ state view, alike state view → original.allowed view = .ok true →
    Alike alike (action.execute state) (original.effect view)

/-- A planner and a meter of the port, with those that they are taken over from. -/
structure Ported (alike : Goap.State ℚ → View ℚ Other → Prop) (planner : Goap.Planner ℚ)
    (meter : Goap.PlanningStateMeter ℚ) (original : Planner ℚ Other) (originalMeter : PlanningStateMeter ℚ Other) : Prop where
  method : planner.planningMethod = .BreadthFirst ↔ original._planningMethod = .BreadthFirst
  actions : List.Forall₂ (Counterpart alike) planner.planningActions original._planningActions
  monotonic : meter.monotonic = originalMeter.monotonic
  distance : ∀ state view, alike state view → Alike Eq (meter.distance state) (onView originalMeter.distance view)
  enough : ∀ state view, alike state view → Alike Eq (meter.enough state) (onView originalMeter.enough view)
  cost : ∀ state view, alike state view → state.cost = view.cost
  known : ∀ state view stored stored', alike state view → alike stored stored' →
    (Goap.State.keyMatch state stored = true ↔ hashOf stored'.at? = hashOf view.at?)

def Paired (planner : Goap.Planner ℚ) (original : Planner ℚ Other) (action : Goap.PlanningAction ℚ)
    (action' : ActionRef ℚ Other) : Prop :=
  (action, action') ∈ planner.planningActions.zip original._planningActions

variable {alike : Goap.State ℚ → View ℚ Other → Prop} {planner : Goap.Planner ℚ} {meter : Goap.PlanningStateMeter ℚ}
  {original : Planner ℚ Other} {originalMeter : PlanningStateMeter ℚ Other}

namespace Ported

theorem counterpart (ported : Ported alike planner meter original originalMeter) {action : Goap.PlanningAction ℚ}
    {action' : ActionRef ℚ Other} (paired : Paired planner original action action') : Counterpart alike action action' :=
  (List.forall₂_iff_zip.mp ported.actions).2 paired

theorem paired (ported : Ported alike planner meter original originalMeter) :
    List.Forall₂ (Paired planner original) planner.planningActions original._planningActions :=
  List.forall₂_iff_zip.mpr ⟨ported.actions.length_eq, id⟩

theorem discipline (ported : Ported alike planner meter original originalMeter) :
    planner.unvisitedPathes.discipline = original.unvisitedPathes.discipline := by
  have same := ported.method
  unfold Goap.Planner.unvisitedPathes Planner.unvisitedPathes
  cases left : planner.planningMethod <;> cases right : original._planningMethod <;> simp_all <;> rfl

end Ported

/-- What an action leads to in the port, with the distance of that. -/
def measuredPort (meter : Goap.PlanningStateMeter ℚ) (state : Goap.State ℚ) (action : Goap.PlanningAction ℚ) :
    Option (Goap.State ℚ × ℚ) :=
  match action.canExecute state with
  | .ok true =>
    match action.execute state with
    | .error _ => none
    | .ok next =>
      match meter.distance next with
      | .error _ => none
      | .ok distance => some (next, distance)
  | _ => none

theorem childCost_eq (pathCost min : ℚ) (state : Goap.State ℚ) (action : Goap.PlanningAction ℚ) :
    Goap.Planner.childCost meter pathCost min state action = (measuredPort meter state action).map fun next =>
      (Goap.Planner.pathCosts meter pathCost min min next.2 next.1.cost).1 := by
  unfold Goap.Planner.childCost measuredPort
  cases action.canExecute state with
  | error e => rfl
  | ok able =>
    cases able with
    | false => rfl
    | true =>
      cases action.execute state with
      | error e => rfl
      | ok next => cases measured : meter.distance next <;> simp [measured]

theorem minDistance_gatherAction (path : Option (PathPtr ℚ)) (state : Goap.State ℚ) (pathCost min : ℚ)
    (search : Goap.Search ℚ) (action : Goap.PlanningAction ℚ) :
    (Goap.Planner.gatherAction planner meter path state pathCost min search action).minDistance =
      match measuredPort meter state action with
      | none => search.minDistance
      | some next => (Goap.Planner.pathCosts meter pathCost min search.minDistance next.2 next.1.cost).2 := by
  unfold Goap.Planner.gatherAction Goap.Planner.gatherBody measuredPort
  cases action.canExecute state with
  | error e => rfl
  | ok able =>
    cases able with
    | false => rfl
    | true =>
      cases action.execute state with
      | error e => rfl
      | ok next => cases measured : meter.distance next <;> simp [measured, Goap.Planner.addPath]

/-- The least distance of the port after it has expanded a state. -/
def least (planner : Goap.Planner ℚ) (meter : Goap.PlanningStateMeter ℚ) (state : Goap.State ℚ) (min : ℚ) : ℚ :=
  planner.planningActions.foldl (fun minDistance action =>
    match measuredPort meter state action with
    | none => minDistance
    | some next => (Goap.Planner.pathCosts meter 0 min minDistance next.2 next.1.cost).2) min

theorem minDistance_gather (path : Option (PathPtr ℚ)) (state : Goap.State ℚ) (pathCost : ℚ) (search : Goap.Search ℚ) :
    (Goap.Planner.gather planner meter path state pathCost search).minDistance =
      least planner meter state search.minDistance := by
  suffices pass : ∀ (min : ℚ) (actions : List (Goap.PlanningAction ℚ)) (search : Goap.Search ℚ),
      (actions.foldl (Goap.Planner.gatherAction planner meter path state pathCost min) search).minDistance =
        actions.foldl (fun minDistance action =>
          match measuredPort meter state action with
          | none => minDistance
          | some next => (Goap.Planner.pathCosts meter 0 min minDistance next.2 next.1.cost).2) search.minDistance from
    pass search.minDistance planner.planningActions { search with gathered := state :: search.gathered }
  intro min actions
  induction actions with
  | nil => exact fun _ => rfl
  | cons action rest ih =>
    intro search
    rw [List.foldl_cons, List.foldl_cons, ih, minDistance_gatherAction]
    congr 1
    cases measuredPort meter state action with
    | none => rfl
    | some next =>
      unfold Goap.Planner.pathCosts
      dsimp only
      split <;> rfl

/-- A state that the port knows ends nothing. -/
theorem running_of_seen (meter : Goap.PlanningStateMeter ℚ) {initialState state : Goap.State ℚ} {search : Goap.Search ℚ}
    (next : Goap.Planner.nextState planner initialState search = some state)
    (seen : search.visitedStates.any (Goap.State.keyMatch state) = true) :
    (∃ search', Goap.Planner.loopStep planner meter initialState search = .running search') ∨
      ∃ search', Goap.Planner.loopStep planner meter initialState search = .exhausted search' := by
  unfold Goap.Planner.nextState Goap.Planner.nextPath at next
  unfold Goap.Planner.loopStep Goap.Planner.visit
  generalize Goap.PrioritizedQueue.empty PathPtr.cost search.unvisitedPaths = emptied at next ⊢
  obtain ⟨finished, unvisitedPaths⟩ := emptied
  dsimp only at next ⊢
  cases finished with
  | true => exact .inr ⟨_, rfl⟩
  | false =>
    left
    obtain ⟨path, popped, reached⟩ := Option.bind_eq_some_iff.mp next
    split at popped
    · rename_i found
      cases popped
      simp only [found]
      generalize Goap.Path.executeFromRoot search.nodes path.id initialState search.memo = executed at reached ⊢
      obtain ⟨answer, memo⟩ := executed
      cases answer with
      | error e => cases reached
      | ok _ =>
        cases reached
        dsimp only
        rw [if_pos seen]
        exact ⟨_, rfl⟩
    · cases popped

/-- The least distance after an iteration of the port's loop. -/
theorem minDistance_loopStep {initialState state : Goap.State ℚ} {search search' : Goap.Search ℚ}
    (ran : Goap.Planner.loopStep planner meter initialState search = .running search')
    (next : Goap.Planner.nextState planner initialState search = some state) :
    search'.minDistance =
      if search.visitedStates.any (Goap.State.keyMatch state) then search.minDistance
      else least planner meter state search.minDistance := by
  unfold Goap.Planner.nextState Goap.Planner.nextPath at next
  unfold Goap.Planner.loopStep Goap.Planner.visit at ran
  generalize Goap.PrioritizedQueue.empty PathPtr.cost search.unvisitedPaths = emptied at next ran
  obtain ⟨finished, unvisitedPaths⟩ := emptied
  dsimp only at next ran
  split at ran
  · cases ran
  · generalize Goap.PrioritizedQueue.pop planner.unvisitedPathes PathPtr.cost unvisitedPaths = popped at next ran
    match popped with
    | .error e => cases ran
    | .ok (none, _) => cases ran
    | .ok (some path, _) =>
      obtain ⟨path', same, reached⟩ := Option.bind_eq_some_iff.mp next
      cases same
      dsimp only at ran reached
      generalize Goap.Path.executeFromRoot search.nodes path.id initialState search.memo = executed at ran reached
      obtain ⟨answer, memo⟩ := executed
      cases answer with
      | error e => cases reached
      | ok _ =>
        cases reached
        dsimp only at ran
        split at ran
        · rename_i seen
          cases ran
          exact (if_pos seen).symm
        · rename_i fresh
          rw [if_neg fresh]
          split at ran
          · cases ran
          · cases ran
          · cases ran
            exact minDistance_gather _ _ _ _

/-- An action and its counterpart are measured together. -/
theorem Ported.measured (ported : Ported alike planner meter original originalMeter) {action : Goap.PlanningAction ℚ}
    {action' : ActionRef ℚ Other} (same : Counterpart alike action action') {state : Goap.State ℚ}
    {view : View ℚ Other} (start : alike state view) :
    Option.Rel (fun next next' => alike next.1 next'.1 ∧ next.2 = next'.2) (measuredPort meter state action)
      (Planner.measured originalMeter view action') := by
  unfold measuredPort Planner.measured
  have allowed := same.allowed state view start
  split
  · rename_i able
    have able' := allowed.mp able
    have effect := same.effect state view start able'
    simp only [able']
    generalize action.execute state = next at effect ⊢
    generalize action'.effect view = next' at effect ⊢
    cases effect with
    | thrown => exact .none
    | @ok next next' reached =>
      have distance := ported.distance next next' reached
      dsimp only
      generalize meter.distance next = measure at distance ⊢
      generalize onView originalMeter.distance next' = measure' at distance ⊢
      cases distance with
      | thrown => exact .none
      | ok same => exact .some ⟨reached, same⟩
  · rename_i unable
    split
    · rename_i able'
      exact absurd (allowed.mpr able') unable
    · exact .none

theorem Ported.pathCosts (ported : Ported alike planner meter original originalMeter) (pathCost min minDistance distance stateCost : ℚ) :
    Goap.Planner.pathCosts meter pathCost min minDistance distance stateCost =
      ((Planner.pathCosts originalMeter pathCost min distance stateCost).1,
        (Planner.pathCosts originalMeter pathCost min distance stateCost).2.getD minDistance) := by
  unfold Goap.Planner.pathCosts Planner.pathCosts
  rw [ported.monotonic]
  dsimp only [FloatOps.lt, NumberOps.lt]
  split <;> rfl

theorem measuredPort_spec {state : Goap.State ℚ} {action : Goap.PlanningAction ℚ} {next : Goap.State ℚ × ℚ}
    (found : measuredPort meter state action = some next) :
    action.canExecute state = .ok true ∧ action.execute state = .ok next.1 := by
  unfold measuredPort at found
  split at found
  · rename_i able
    split at found
    · cases found
    · rename_i effect
      split at found
      · cases found
      · cases found
        exact ⟨able, effect⟩
  · cases found

/-- Actions of the port and a trail of the original with the same actions, which lead to
corresponding states by way of corresponding states. -/
structure Follows (alike : Goap.State ℚ → View ℚ Other → Prop) (planner : Goap.Planner ℚ) (original : Planner ℚ Other)
    (initialState : Goap.State ℚ) (initial : View ℚ Other) (actions : List (Goap.PlanningAction ℚ))
    (state : Goap.State ℚ) (trail : Trail ℚ Other) : Prop where
  paired : List.Forall₂ (Paired planner original) actions trail.actions.reverse
  states : ∃ states, Goap.Executes initialState actions states ∧ reached initialState states = state ∧
    List.Forall₂ alike states (Planner.along initial trail.actions)
  ended : alike state trail.view
  outcome : outcome initial trail.actions = .ok trail.view

variable {initialState state : Goap.State ℚ} {initial : View ℚ Other} {actions : List (Goap.PlanningAction ℚ)}
  {trail : Trail ℚ Other}

theorem Follows.root (start : alike initialState initial) :
    Follows alike planner original initialState initial [] initialState (Planner.root initial) :=
  ⟨.nil, ⟨[], .nil, rfl, .nil⟩, start, rfl⟩

theorem Follows.child (follows : Follows alike planner original initialState initial actions state trail)
    {action : Goap.PlanningAction ℚ} {action' : ActionRef ℚ Other} (paired : Paired planner original action action')
    {next : Goap.State ℚ × ℚ} {next' : View ℚ Other × ℚ} (found : measuredPort meter state action = some next)
    (found' : Planner.measured originalMeter trail.view action' = some next') (same : alike next.1 next'.1) (cost : ℚ) :
    Follows alike planner original initialState initial (actions ++ [action]) next.1
      ⟨action' :: trail.actions, cost, next'.1⟩ := by
  obtain ⟨states, executes, ended, along⟩ := follows.states
  obtain ⟨able, effect⟩ := measuredPort_spec found
  have outcome : AS3.outcome initial (action' :: trail.actions) = .ok next'.1 := by
    rw [AS3.outcome, follows.outcome]
    exact (Planner.measured_spec found').2.1
  refine ⟨?_, ⟨states ++ [next.1], ?_, reached_snoc _ _ _, ?_⟩, same, outcome⟩
  · rw [List.reverse_cons]
    exact List.rel_append follows.paired (.cons paired .nil)
  · rw [← ended] at able effect
    exact executes.snoc able effect
  · simp only [Planner.along, outcome]
    exact List.rel_append along (.cons same .nil)

/-- A path that waits in the port and the trail that waits in its place. -/
def StandsBy (alike : Goap.State ℚ → View ℚ Other → Prop) (planner : Goap.Planner ℚ) (original : Planner ℚ Other)
    (initialState : Goap.State ℚ) (initial : View ℚ Other) (nodes : PathNodes ℚ) (path : PathPtr ℚ)
    (trail : Trail ℚ Other) : Prop :=
  path.id < nodes.length ∧ path.cost = trail.cost ∧ ∃ state,
    Follows alike planner original initialState initial (Goap.Path.actionsTo nodes path.id) state trail

/-- What waits after an expansion. -/
theorem Follows.spawned (follows : Follows alike planner original initialState initial actions state trail)
    (ported : Ported alike planner meter original originalMeter) {nodes nodes' : PathNodes ℚ} {parent : Option Nat}
    {pointers : List (PathPtr ℚ)} {min : ℚ} (line : Goap.Path.parentActions nodes parent = actions)
    (spawned : Goap.Planner.Spawned nodes nodes' parent
      (Goap.Planner.children planner meter trail.cost min state) pointers) :
    List.Forall₂ (StandsBy alike planner original initialState initial nodes') pointers
      (original.plainGather originalMeter trail min).1 := by
  have children : List.Forall₂ (fun (child : Goap.PlanningAction ℚ × ℚ) (child' : Trail ℚ Other × Option ℚ) =>
      child.2 = child'.1.cost ∧
        ∃ next, Follows alike planner original initialState initial (actions ++ [child.1]) next child'.1)
      (Goap.Planner.children planner meter trail.cost min state) (original.plainChildren originalMeter trail min) := by
    refine List.rel_filterMap ?_ ported.paired
    intro action action' paired
    have measured := ported.measured (ported.counterpart paired) follows.ended
    beta_reduce
    rw [childCost_eq, Planner.child]
    generalize found : measuredPort meter state action = next at measured ⊢
    generalize found' : Planner.measured originalMeter trail.view action' = next' at measured ⊢
    cases measured with
    | none => exact .none
    | @some next next' same =>
      refine .some ⟨?_, next.1, follows.child paired found found' same.1 _⟩
      dsimp only
      rw [ported.pathCosts, same.2, ported.cost _ _ same.1]
  rw [Planner.plainGather, List.forall₂_map_right_iff]
  refine (forall₂_comp spawned.lines children).imp ?_
  rintro pointer child ⟨spawn, ⟨bound, cost, own⟩, same, next, follows'⟩
  refine ⟨bound, cost.trans same, next, ?_⟩
  rw [own, line]
  exact follows'

/-- The least distance after an expansion. -/
theorem Ported.least (ported : Ported alike planner meter original originalMeter) (ended : alike state trail.view)
    (min : ℚ) : AS3.least planner meter state min = (original.plainGather originalMeter trail min).2 := by
  suffices pass : ∀ {tried : List (Goap.PlanningAction ℚ)} {tried' : List (ActionRef ℚ Other)},
      List.Forall₂ (Paired planner original) tried tried' → ∀ minDistance : ℚ,
      tried.foldl (fun minDistance action =>
        match measuredPort meter state action with
        | none => minDistance
        | some next => (Goap.Planner.pathCosts meter 0 min minDistance next.2 next.1.cost).2) minDistance =
      (tried'.filterMap (Planner.child originalMeter trail min)).foldl
        (fun minDistance child => child.2.getD minDistance) minDistance from
    pass ported.paired min
  intro tried tried' paired
  induction paired with
  | nil => exact fun _ => rfl
  | @cons action action' rest rest' same _ ih =>
    intro minDistance
    have measured := ported.measured (ported.counterpart same) ended
    rw [List.foldl_cons, ih, List.filterMap_cons, Planner.child]
    generalize measuredPort meter state action = next at measured ⊢
    generalize Planner.measured originalMeter trail.view action' = next' at measured ⊢
    cases measured with
    | none => rfl
    | @some next next' same =>
      dsimp only [Option.map]
      rw [List.foldl_cons, ported.pathCosts, same.2, ported.cost _ _ same.1]
      congr 1
      unfold Planner.pathCosts
      dsimp only
      split <;> rfl

/-- The search of the port and the plain search of the original. -/
structure Mirrors (alike : Goap.State ℚ → View ℚ Other → Prop) (planner : Goap.Planner ℚ) (original : Planner ℚ Other)
    (initialState : Goap.State ℚ) (initial : View ℚ Other) (search : Goap.Search ℚ) (machine : TwoList (PathPtr ℚ))
    (plain : PlainSearch ℚ Other) : Prop where
  searching : Goap.Planner.Searching planner initialState search machine
  frontier : TwoList.Related (StandsBy alike planner original initialState initial search.nodes)
    machine.settle plain.frontier.settle
  visited : List.Forall₂ alike search.visitedStates plain.expanded
  minDistance : search.minDistance = plain.minDistance

/-- Of two paths the port takes the one first that the original would take first. -/
def PricedAlike (path other : PathPtr ℚ) : Prop :=
  Goap.PrioritizedQueue.priority PathPtr.cost path ≤ Goap.PrioritizedQueue.priority PathPtr.cost other ↔
    PrioritizedQueue.priority PathPtr.cost path ≤ PrioritizedQueue.priority PathPtr.cost other

theorem Mirrors.start (ported : Ported alike planner meter original originalMeter) (start : alike initialState initial) :
    ∃ machine, Mirrors alike planner original initialState initial (planner.start meter initialState) machine
      (original.plainStart originalMeter initial) := by
  obtain ⟨pointers, spawned, gathered, searching⟩ := Goap.Planner.start_searching planner meter initialState
  have line : Goap.Path.parentActions ([] : PathNodes ℚ) none = [] := rfl
  refine ⟨_, searching, ?_, ?_, ?_⟩
  · have waits := (Follows.root start).spawned ported line spawned
    rw [Planner.plainStart]
    dsimp only
    rw [TwoList.settle_settle]
    exact TwoList.Related.settle ⟨.nil, waits⟩
  · rw [← searching.gathered, gathered]
    exact .cons start .nil
  · exact (minDistance_gather _ _ _ _).trans (ported.least start 1)

theorem StandsBy.spawned {nodes nodes' : PathNodes ℚ} {parent : Option Nat} {pointers : List (PathPtr ℚ)}
    {children : List (Goap.PlanningAction ℚ × ℚ)} {path : PathPtr ℚ}
    (stands : StandsBy alike planner original initialState initial nodes path trail)
    (spawned : Goap.Planner.Spawned nodes nodes' parent children pointers) :
    StandsBy alike planner original initialState initial nodes' path trail := by
  obtain ⟨bound, cost, state, follows⟩ := stands
  refine ⟨bound.trans_le spawned.grown, cost, state, ?_⟩
  rw [spawned.kept path.id bound]
  exact follows

theorem StandsBy.follows {nodes : PathNodes ℚ} {path : PathPtr ℚ}
    (stands : StandsBy alike planner original initialState initial nodes path trail)
    (leads : Goap.Planner.Leads initialState nodes path.id state) :
    Follows alike planner original initialState initial (Goap.Path.actionsTo nodes path.id) state trail := by
  obtain ⟨_, _, state', follows⟩ := stands
  obtain ⟨_, states, executes, ended⟩ := leads
  obtain ⟨states', executes', ended', _⟩ := follows.states
  have same := executes.traceActions.symm.trans executes'.traceActions
  cases same
  rw [← ended, ended']
  exact follows

inductive Matches (alike : Goap.State ℚ → View ℚ Other → Prop) (planner : Goap.Planner ℚ) (original : Planner ℚ Other)
    (initialState : Goap.State ℚ) (initial : View ℚ Other) : Goap.LoopStatus ℚ → PlainStatus ℚ Other → Prop where
  | running (next : Mirrors alike planner original initialState initial search machine plain) :
      Matches alike planner original initialState initial (.running search) (.running plain)
  | exhausted : Matches alike planner original initialState initial (.exhausted search) .exhausted
  | reachedGoal {trail : Trail ℚ Other} (searching : Goap.Planner.Searching planner initialState search machine)
      (stands : StandsBy alike planner original initialState initial search.nodes path trail) :
      Matches alike planner original initialState initial (.reachedGoal path search) (.reachedGoal trail)
  | thrown : Matches alike planner original initialState initial (.thrown e) (.thrown e')

variable {search : Goap.Search ℚ} {machine : TwoList (PathPtr ℚ)} {plain : PlainSearch ℚ Other}

theorem Ported.visited_iff (ported : Ported alike planner meter original originalMeter) (ended : alike state trail.view)
    {visitedStates : List (Goap.State ℚ)} {expanded : List (View ℚ Other)} (visited : List.Forall₂ alike visitedStates expanded) :
    visitedStates.any (Goap.State.keyMatch state) = true ↔ hashOf trail.view.at? ∈ expanded.map fun view => hashOf view.at? := by
  induction visited with
  | nil => simp
  | @cons stored stored' _ _ same _ ih =>
    rw [List.any_cons, List.map_cons, List.mem_cons, Bool.or_eq_true, ih, ported.known _ _ _ _ ended same, eq_comm]

/-- The port takes the path that the original takes. -/
theorem Mirrors.pop (mirrors : Mirrors alike planner original initialState initial search machine plain)
    (ported : Ported alike planner meter original originalMeter)
    (priced : ∀ path ∈ machine.contents, ∀ other ∈ machine.contents, PricedAlike path other) :
    let popped := planner.popped machine
    let popped' := plain.frontier.pop (PrioritizedQueue.priority Trail.cost) original.unvisitedPathes.discipline
    (popped.1 = none ∧ popped'.1 = none ∨ ∃ path trail, popped.1 = some path ∧ popped'.1 = some trail ∧
      StandsBy alike planner original initialState initial search.nodes path trail) ∧
    TwoList.Related (StandsBy alike planner original initialState initial search.nodes) popped.2 popped'.2 := by
  have order := TwoList.pop_of_order planner.unvisitedPathes.discipline priced
  have keys : ∀ path trail, StandsBy alike planner original initialState initial search.nodes path trail →
      PrioritizedQueue.priority PathPtr.cost path = PrioritizedQueue.priority Trail.cost trail := by
    intro path trail stands
    simp only [PrioritizedQueue.priority, PrioritizedQueue.icost, stands.2.1]
  have related := mirrors.frontier.pop keys planner.unvisitedPathes.discipline
  rw [TwoList.pop_settle, TwoList.pop_settle] at related
  dsimp only
  rw [Goap.Planner.popped, order, ← ported.discipline]
  exact related

/-- An iteration of the port does what one of the original does. -/
theorem Mirrors.loopStep (mirrors : Mirrors alike planner original initialState initial search machine plain)
    (ported : Ported alike planner meter original originalMeter)
    (priced : ∀ path ∈ machine.contents, ∀ other ∈ machine.contents, PricedAlike path other) :
    Matches alike planner original initialState initial (planner.loopStep meter initialState search)
      (original.plainStep originalMeter plain) := by
  have iteration := mirrors.searching.iteration meter
  obtain ⟨taken, frontier⟩ := mirrors.pop ported priced
  unfold Planner.plainStep
  generalize plain.frontier.pop (PrioritizedQueue.priority Trail.cost) original.unvisitedPathes.discipline = popped'
    at taken frontier ⊢
  obtain ⟨first, frontier'⟩ := popped'
  generalize ran : planner.loopStep meter initialState search = status at iteration ⊢
  -- every iteration but the last one pops, on both sides or on none
  have both : ∀ path machine' state, Goap.Planner.Pops planner initialState search machine path machine' state →
      ∃ trail, first = some trail ∧
        Follows alike planner original initialState initial (Goap.Path.actionsTo search.nodes path.id) state trail ∧
        path.cost = trail.cost ∧ path.id < search.nodes.length ∧
        TwoList.Related (StandsBy alike planner original initialState initial search.nodes) machine' frontier' := by
    intro path machine' state pops
    rw [pops.pop] at taken frontier
    rcases taken with ⟨nothing, _⟩ | ⟨path', trail, same, same', stands⟩
    · cases nothing
    · cases same
      exact ⟨trail, same', stands.follows pops.leads, stands.2.1, stands.1, frontier⟩
  cases iteration with
  | exhausted drained nothing =>
    rcases taken with ⟨_, none⟩ | ⟨path, _, same, _⟩
    · cases none
      exact .exhausted
    · have moved := Goap.Planner.popped_contents (Prod.ext same rfl)
      rw [drained] at moved
      cases moved.nil_eq
  | rejected pops seen nodes visited after =>
    obtain ⟨trail, rfl, follows, cost, bound, frontier'⟩ := both _ _ _ pops
    have minDistance := minDistance_loopStep ran pops.next
    rw [if_pos seen] at minDistance
    have seen' := (ported.visited_iff follows.ended mirrors.visited).mp seen
    dsimp only
    rw [if_pos seen']
    exact .running ⟨after, nodes ▸ frontier'.settle, visited ▸ mirrors.visited, minDistance.trans mirrors.minDistance⟩
  | thrown pops failed =>
    obtain ⟨trail, rfl, follows, cost, bound, frontier'⟩ := both _ _ _ pops
    have fresh' : hashOf trail.view.at? ∉ plain.expanded.map fun view => hashOf view.at? := by
      intro seen
      have seen' := (ported.visited_iff follows.ended mirrors.visited).mpr seen
      rcases running_of_seen meter pops.next seen' with ⟨_, other⟩ | ⟨_, other⟩ <;> cases ran.symm.trans other
    have enough := ported.enough _ _ follows.ended
    dsimp only
    rw [if_neg fresh']
    rw [failed] at enough
    generalize onView originalMeter.enough trail.view = answer at enough ⊢
    cases enough with
    | thrown => exact .thrown
  | reachedGoal pops fresh enough nodes after =>
    obtain ⟨trail, rfl, follows, cost, bound, frontier'⟩ := both _ _ _ pops
    have fresh' : hashOf trail.view.at? ∉ plain.expanded.map fun view => hashOf view.at? := fun seen =>
      Bool.false_ne_true (fresh.symm.trans ((ported.visited_iff follows.ended mirrors.visited).mpr seen))
    have enough' := ported.enough _ _ follows.ended
    dsimp only
    rw [if_neg fresh']
    rw [enough] at enough'
    generalize onView originalMeter.enough trail.view = answer at enough' ⊢
    cases enough' with
    | ok same =>
      cases same
      exact .reachedGoal after (nodes ▸ ⟨bound, cost, _, follows⟩)
  | expanded pops fresh notEnough spawned visited after =>
    obtain ⟨trail, rfl, follows, cost, bound, frontier'⟩ := both _ _ _ pops
    have fresh' : hashOf trail.view.at? ∉ plain.expanded.map fun view => hashOf view.at? := fun seen =>
      Bool.false_ne_true (fresh.symm.trans ((ported.visited_iff follows.ended mirrors.visited).mpr seen))
    have enough' := ported.enough _ _ follows.ended
    dsimp only
    rw [if_neg fresh']
    rw [notEnough] at enough'
    generalize onView originalMeter.enough trail.view = answer at enough' ⊢
    cases enough' with
    | ok same =>
      cases same
      have minDistance := minDistance_loopStep ran pops.next
      rw [if_neg (Bool.eq_false_iff.mp fresh), mirrors.minDistance, ported.least follows.ended] at minDistance
      rw [mirrors.minDistance, cost] at spawned
      have born := follows.spawned ported rfl spawned
      have kept := frontier'.imp fun path _ trail stands => stands.spawned spawned
      exact .running ⟨after, (kept.append born).settle, visited ▸ .cons follows.ended mirrors.visited, minDistance⟩

/-- The paths in the buckets of the port's queue and the lazy ones. -/
def WaitsInPort (search : Goap.Search ℚ) (path : PathPtr ℚ) : Prop :=
  search.unvisitedPaths.Held path ∨ path ∈ search.unvisitedPaths.lazyArray

/-- The price that the port goes by, in hundredths, and that of the original, in ten millionths. -/
theorem prices_of_hundredths {path : PathPtr ℚ} {hundredths : Nat} (small : hundredths < 21474)
    (cost : path.cost = hundredths / 100) :
    Goap.PrioritizedQueue.priority PathPtr.cost path = hundredths ∧
      PrioritizedQueue.priority PathPtr.cost path = 100000 * hundredths := by
  constructor
  · have shown : truncate (100 * path.cost + 1 / 2) = hundredths := by
      rw [cost, mul_div_cancel₀ _ (by norm_num), truncate_of_nonneg (by positivity), Int.floor_eq_iff]
      constructor <;> push_cast <;> linarith
    rw [Goap.PrioritizedQueue.priority, Goap.PrioritizedQueue.bucketKey_eq, shown]
    exact Int64.toInt_ofIntClamp (by simp only [Int64.toInt_minValue]; omega) (by simp only [Int64.toInt_maxValue]; omega)
  · have shown : truncate (10000000 * path.cost) = 100000 * hundredths := by
      have whole : 10000000 * path.cost = ((100000 * hundredths : ℤ) : ℚ) := by
        rw [cost]
        push_cast
        ring
      rw [whole, truncate_of_nonneg (by positivity), Int.floor_intCast]
    have price : PrioritizedQueue.icost PathPtr.cost path = Int32.ofInt (truncate (10000000 * path.cost)) :=
      congrArg Int32.ofInt (truncate_rat _)
    rw [PrioritizedQueue.priority, price, shown]
    exact Int32.toInt_ofInt_of_le (by omega) (by omega)

theorem pricedAlike_of_hundredths {path other : PathPtr ℚ} {hundredths hundredths' : Nat}
    (small : hundredths < 21474) (cost : path.cost = hundredths / 100) (small' : hundredths' < 21474)
    (cost' : other.cost = hundredths' / 100) : PricedAlike path other := by
  obtain ⟨port, original⟩ := prices_of_hundredths small cost
  obtain ⟨port', original'⟩ := prices_of_hundredths small' cost'
  rw [PricedAlike, port, port', original, original']
  omega

/-- Both calls of `makePlan` end, or neither does within the fuel, and they end alike: they throw, they
find no plan, or they give the same actions and go through corresponding states. -/
inductive SamePlan (alike : Goap.State ℚ → View ℚ Other → Prop) (planner : Goap.Planner ℚ) (original : Planner ℚ Other) :
    Option (Except Exn (Goap.PlanResult ℚ)) →
      Option (Except Error (Option (List (ActionRef ℚ Other)) × Option (List (View ℚ Other)))) → Prop where
  | unfinished : SamePlan alike planner original none none
  | thrown : SamePlan alike planner original (some (.error e)) (some (.error e'))
  | noPlan (nothing : result.actionsArray = []) (goal : result.bReachedGoal = false) :
      SamePlan alike planner original (some (.ok result)) (some (.ok (none, some [])))
  | planned {plan : List (ActionRef ℚ Other)} {views : List (View ℚ Other)} (goal : result.bReachedGoal = true)
      (same : List.Forall₂ (Paired planner original) result.actionsArray plan) (passed : result.pStates = some states)
      (along : List.Forall₂ alike states views) :
      SamePlan alike planner original (some (.ok result)) (some (.ok (some plan, some views)))

/-- The main loops end alike. -/
theorem Mirrors.mainLoop (mirrors : Mirrors alike planner original initialState initial search machine plain)
    (ported : Ported alike planner meter original originalMeter) (explored : planner.Explored meter initialState search)
    (priced : ∀ search, planner.Explored meter initialState search → ∀ path other,
      WaitsInPort search path → WaitsInPort search other → PricedAlike path other) (fuel : Nat) :
    SamePlan alike planner original (planner.mainLoop meter initialState [] (some []) fuel search)
      ((original.plainLoop originalMeter initial fuel plain).map (Except.map (told none (some [])))) := by
  induction fuel generalizing search machine plain with
  | zero => exact .unfinished
  | succ fuel ih =>
    have waits : ∀ path ∈ machine.contents, WaitsInPort search path := by
      intro path member
      obtain ⟨holds, pending⟩ := mirrors.searching.queue
      rcases List.mem_append.mp member with active | lazy
      · exact .inl ((holds.held_iff path).mpr active)
      · exact .inr (pending ▸ lazy)
    have step := mirrors.loopStep ported fun path member other member' =>
      priced search explored path other (waits path member) (waits other member')
    unfold Goap.Planner.mainLoop Planner.plainLoop
    generalize ran : planner.loopStep meter initialState search = status at step ⊢
    generalize original.plainStep originalMeter plain = status' at step ⊢
    cases step with
    | running next => exact ih next (explored.step ran)
    | exhausted => exact .noPlan rfl rfl
    | thrown => exact .thrown
    | reachedGoal searching stands =>
      obtain ⟨bound, _, state, follows⟩ := stands
      obtain ⟨states, executes, _, along⟩ := follows.states
      obtain ⟨result, reported, same, goal, passed⟩ := searching.reportGoal executes (some [])
      dsimp only
      rw [reported]
      refine .planned goal ?_ passed ?_
      · rw [same]
        simpa using follows.paired
      · simpa using along

/-- The port makes the plans that the original makes, whatever earlier calls have left in the
pools of the original, as long as the prices of the paths that wait are ordered alike. -/
theorem Session.makePlan_ported {heap : Heap ℚ Other} (session : Session heap) (readable : original.Readable originalMeter)
    (ported : Ported alike planner meter original originalMeter) {initialState' : IWriteState ℚ Other}
    (start : alike initialState initialState'.view)
    (priced : ∀ search, planner.Explored meter initialState search → ∀ path other,
      WaitsInPort search path → WaitsInPort search other → PricedAlike path other) (fuel : Nat) :
    SamePlan alike planner original (planner.makePlan meter initialState [] (some []) fuel)
      ((original.makePlan originalMeter initialState' heap none (some []) fuel).map PlanResult.readEnd) := by
  obtain ⟨machine, mirrors⟩ := Mirrors.start ported start
  have plain := (Planner.mainLoop_spec readable none (some []) fuel
    (Planner.start_simulates readable session.pool initialState')).1
  rw [Planner.makePlan, plain]
  exact mirrors.mainLoop ported .start priced fuel

def floorInPort (state : Goap.State ℚ) : ℚ :=
  match state.find? (.scalar 0) with
  | some (.scalar floor) => floor
  | _ => 0

def onFloorInPort (floor : ℕ) : Goap.State ℚ := Goap.State.new.put (.scalar 0) (.scalar floor)

def riseInPort (top floors : ℕ) : Goap.PlanningAction ℚ where
  name := "rise"
  validator state := .ok (if floorInPort state + floors ≤ top then 1 else 0)
  executor state := .ok (state.put (.scalar 0) (.scalar (floorInPort state + floors)))

def liftInPort (top : ℕ) (steps : List ℕ) : Goap.Planner ℚ := ⟨.BreadthFirst, steps.map (riseInPort top), none⟩

def toFloorInPort (goal : ℕ) : Goap.PlanningStateMeter ℚ where
  goalState := onFloorInPort goal
  monotonic := false
  distance state := .ok |goal - floorInPort state|
  enough state := .ok (floorInPort state == goal)

def SameFloor (top : ℕ) (state : Goap.State ℚ) (view : View ℚ ℕ) : Prop :=
  ∃ floor ≤ top, state = onFloorInPort floor ∧ view = (onFloor floor).view

theorem keyMatch_zero : StateValue.keyMatch (.scalar 0 : StateValue ℚ) (.scalar 0) = true := by decide +kernel

@[simp] theorem floorInPort_onFloorInPort (floor : ℕ) : floorInPort (onFloorInPort floor) = floor := by
  have there : (onFloorInPort floor).find? (.scalar 0) = some (.scalar (floor : ℚ)) := by
    simp [onFloorInPort, Goap.State.find?, Goap.State.put, Goap.State.new, HashedList.lookup, HashedList.insert, keyMatch_zero]
  rw [floorInPort, there]
  rfl

theorem onFloorInPort_put (floor other : ℕ) :
    (onFloorInPort floor).put (.scalar 0) (.scalar other) = onFloorInPort other := by
  simp [onFloorInPort, Goap.State.put, Goap.State.new, HashedList.insert, keyMatch_zero]

theorem rise_counterpart (top floors : ℕ) : Counterpart (SameFloor top) (riseInPort top floors) (rise top floors) where
  allowed state view same := by
    obtain ⟨floor, _, rfl, rfl⟩ := same
    have below : (floor : ℚ) + floors ≤ top ↔ floor + floors ≤ top := by exact_mod_cast Iff.rfl
    rw [allowed_rise]
    simp only [Goap.PlanningAction.canExecute, riseInPort, floorInPort_onFloorInPort, Except.map, below]
    by_cases inside : floor + floors ≤ top
    · simp only [inside, if_true, decide_true]
      decide +revert
    · simp only [inside, if_false, decide_false]
      decide +revert
  effect state view same able := by
    obtain ⟨floor, _, rfl, rfl⟩ := same
    rw [allowed_rise] at able
    rw [effect_rise]
    refine .ok ⟨floor + floors, of_decide_eq_true (Except.ok.inj able), ?_, rfl⟩
    have sum : floorInPort (onFloorInPort floor) + floors = ((floor + floors : ℕ) : ℚ) := by
      rw [floorInPort_onFloorInPort, Nat.cast_add]
    exact (congrArg (fun floor => (onFloorInPort _).put (.scalar 0) (.scalar floor)) sum).trans (onFloorInPort_put _ _)

/-- As long as the floors have different hashes, the states of both lifts are known together. -/
theorem lift_ported {top : ℕ} (apart : ∀ floor ≤ top, ∀ other ≤ top,
      (onFloor floor).toState.hash.1 = (onFloor other).toState.hash.1 → floor = other)
    (known : ∀ floor ≤ top, ∀ other ≤ top, Goap.State.keyMatch (onFloorInPort floor) (onFloorInPort other) = true ↔ floor = other)
    (steps : List ℕ) (goal : ℕ) :
    Ported (SameFloor top) (liftInPort top steps) (toFloorInPort goal) (lift top steps) (toFloor goal) where
  method := by simp [lift, liftInPort]
  actions := by
    rw [liftInPort, lift, List.forall₂_map_left_iff, List.forall₂_map_right_iff, List.forall₂_same]
    exact fun floors _ => rise_counterpart top floors
  monotonic := rfl
  distance state view same := by
    obtain ⟨floor, _, rfl, rfl⟩ := same
    rw [onView_view (lift_readable top steps goal).distance]
    refine .ok ?_
    rw [floorInPort_onFloorInPort, floorOf_onFloor]
  enough state view same := by
    obtain ⟨floor, _, rfl, rfl⟩ := same
    rw [onView_view (lift_readable top steps goal).enough]
    refine .ok ?_
    simp
  cost state view same := by
    obtain ⟨floor, _, rfl, rfl⟩ := same
    rfl
  known state view stored stored' same same' := by
    obtain ⟨floor, below, rfl, rfl⟩ := same
    obtain ⟨floor', below', rfl, rfl⟩ := same'
    rw [known floor below floor' below', ← hash_eq_hashOf, ← hash_eq_hashOf]
    constructor
    · exact fun together => by rw [together]
    · exact fun together => (apart floor' below' floor below together).symm

theorem known_by_floor : ∀ floor ≤ 3, ∀ other ≤ 3,
    Goap.State.keyMatch (onFloorInPort floor) (onFloorInPort other) = true ↔ floor = other := by decide +kernel

/-- The search after some iterations, if the loop goes on for so long. -/
def searchAfter (planner : Goap.Planner ℚ) (meter : Goap.PlanningStateMeter ℚ) (initialState : Goap.State ℚ) :
    ℕ → Option (Goap.Search ℚ)
  | 0 => some (planner.start meter initialState)
  | n + 1 => (searchAfter planner meter initialState n).bind fun search =>
    match planner.loopStep meter initialState search with
    | .running search => some search
    | _ => none

theorem exists_searchAfter {initialState : Goap.State ℚ} {search : Goap.Search ℚ} {bound : ℕ}
    (explored : planner.Explored meter initialState search) (ends : searchAfter planner meter initialState bound = none) :
    ∃ n < bound, searchAfter planner meter initialState n = some search := by
  have stays : ∀ more, searchAfter planner meter initialState (bound + more) = none := by
    intro more
    induction more with
    | zero => exact ends
    | succ more ih => rw [← Nat.add_assoc, searchAfter, ih, Option.bind_none]
  suffices reached : ∃ n, searchAfter planner meter initialState n = some search by
    obtain ⟨n, found⟩ := reached
    refine ⟨n, ?_, found⟩
    by_contra beyond
    have none := stays (n - bound)
    rw [Nat.add_sub_cancel' (Nat.le_of_not_lt beyond), found] at none
    cases none
  induction explored with
  | start => exact ⟨0, rfl⟩
  | step _ ran ih =>
    obtain ⟨n, found⟩ := ih
    refine ⟨n + 1, ?_⟩
    rw [searchAfter, found, Option.bind_some, ran]

def waitingCosts (search : Goap.Search ℚ) : List ℚ :=
  (search.unvisitedPaths.queues.toList.flatMap Prod.snd ++ search.unvisitedPaths.lazyArray).map PathPtr.cost

theorem mem_waitingCosts {search : Goap.Search ℚ} {path : PathPtr ℚ} (waits : WaitsInPort search path) :
    path.cost ∈ waitingCosts search := by
  refine List.mem_map_of_mem (List.mem_append.mpr (waits.imp_left ?_))
  intro held
  obtain ⟨key, present, inside⟩ := held
  refine List.mem_flatMap.mpr ⟨(key, search.unvisitedPaths.queues.getD key []), ?_, inside⟩
  rw [Std.TreeMap.mem_toList_iff_getElem?_eq_some, Std.TreeMap.getD_eq_getD_getElem?,
    Std.TreeMap.getElem?_eq_some_getElem present]
  rfl

theorem Session.makePlan_ported_lift :
    SamePlan (SameFloor 3) (liftInPort 3 [1, 2]) (lift 3 [1, 2])
      ((liftInPort 3 [1, 2]).makePlan (toFloorInPort 3) (onFloorInPort 0) [] (some []) 9)
      (((lift 3 [1, 2]).makePlan (toFloor 3) (onFloor 0) ⟨[], .new, .new⟩ none (some []) 9).map PlanResult.readEnd) := by
  have priced : ∀ n < 9, ((searchAfter (liftInPort 3 [1, 2]) (toFloorInPort 3) (onFloorInPort 0) n).map waitingCosts).all
      (fun costs => costs.all fun cost => ((List.range 9).map fun whole : ℕ => (whole : ℚ)).contains cost) = true := by
    decide +kernel
  have ends : (searchAfter (liftInPort 3 [1, 2]) (toFloorInPort 3) (onFloorInPort 0) 9).isNone = true := by
    decide +kernel
  refine Session.makePlan_ported .new (lift_readable 3 [1, 2] 3) (lift_ported floors_apart known_by_floor [1, 2] 3)
    ⟨0, Nat.zero_le _, rfl, rfl⟩ ?_ 9
  intro search explored path other waits waits'
  obtain ⟨n, bound, found⟩ := exists_searchAfter explored (Option.isNone_iff_eq_none.mp ends)
  have checked := priced n bound
  rw [found] at checked
  have whole : ∀ path, WaitsInPort search path → ∃ whole : ℕ, whole < 9 ∧ path.cost = ((100 * whole : ℕ) : ℚ) / 100 := by
    intro path waits
    have checked := List.all_eq_true.mp checked path.cost (mem_waitingCosts waits)
    rw [List.contains_iff_mem, List.mem_map] at checked
    obtain ⟨whole, inside, same⟩ := checked
    refine ⟨whole, List.mem_range.mp inside, ?_⟩
    rw [← same, Nat.cast_mul, Nat.cast_ofNat, mul_div_cancel_left₀ _ (by norm_num)]
  obtain ⟨_, small, cost⟩ := whole path waits
  obtain ⟨_, small', cost'⟩ := whole other waits'
  exact pricedAlike_of_hundredths (by omega) cost (by omega) cost'

end Goap.AS3
