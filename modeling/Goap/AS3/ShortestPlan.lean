import Goap.AS3.Exhaustive
import Goap.Foundation.LevelSearch
import Mathlib.Data.Rat.Floor
import Mathlib.Tactic.Linarith
import Mathlib.Tactic.NormNum
import Mathlib.Tactic.Positivity
import Mathlib.Tactic.Ring

namespace Goap.AS3

open NumberOps Foundation

variable {Other : Type} [ToString Other] {planner : Planner ℚ Other} {meter : PlanningStateMeter ℚ Other}
  {initial : View ℚ Other} {plain : PlainSearch ℚ Other} {c : ℚ}

/-- A path as a trail of the graph. -/
def Trail.leading (trail : Trail ℚ Other) : List (ActionRef ℚ Other) × View ℚ Other := (trail.actions.reverse, trail.view)

namespace Planner

/-- Whatever an action leads to has the same product of distance and cost. -/
def Uniform (planner : Planner ℚ Other) (meter : PlanningStateMeter ℚ Other) (initial : View ℚ Other) (c : ℚ) : Prop :=
  ∀ node, (planner.graph meter).Reachable initial node → ∀ action ∈ planner._planningActions, ∀ next,
    measured meter node action = some next → next.2 * next.1.cost = c

/-- The integer price of a path, if every step costs the same. -/
def icostAt (c : ℚ) (length : ℕ) : Int := (toInt (number 10000000 * (c * length)) : Int32).toInt

theorem icostAt_eq (nonneg : 0 ≤ c) {length : ℕ} (fits : 10000000 * (c * length) < 2 ^ 31) :
    icostAt c length = ⌊10000000 * (c * length)⌋ := by
  have positive : 0 ≤ 10000000 * (c * length) := by positivity
  have whole : (10000000 * (c * length)).num.tdiv (10000000 * (c * length)).den = ⌊10000000 * (c * length)⌋ := by
    rw [Rat.floor_def', ← Int.tdiv_eq_ediv_of_nonneg (Rat.num_nonneg.mpr positive)]
  have below : ⌊10000000 * (c * length)⌋ < 2 ^ 31 := by
    rw [Int.floor_lt]
    exact_mod_cast fits
  have above : 0 ≤ ⌊10000000 * (c * length)⌋ := Int.floor_nonneg.mpr positive
  show (Int32.ofInt ((10000000 * (c * length)).num.tdiv (10000000 * (c * length)).den)).toInt = _
  rw [whole, Int32.toInt_ofInt_of_le (by omega) (by omega)]

theorem icostAt_mono (nonneg : 0 ≤ c) {length length' : ℕ} (bound : length ≤ length')
    (fits : 10000000 * (c * length') < 2 ^ 31) : icostAt c length ≤ icostAt c length' := by
  have prices : 10000000 * (c * length) ≤ 10000000 * (c * length') := by gcongr
  rw [icostAt_eq nonneg (prices.trans_lt fits), icostAt_eq nonneg fits]
  exact Int.floor_le_floor prices

theorem icostAt_lt (step : 1 / 10000000 ≤ c) {length length' : ℕ} (less : length < length')
    (fits : 10000000 * (c * length') < 2 ^ 31) : icostAt c length < icostAt c length' := by
  have nonneg : 0 ≤ c := by linarith
  have counted : (length : ℚ) + 1 ≤ length' := by exact_mod_cast less
  have prices : 10000000 * (c * length) + 1 ≤ 10000000 * (c * length') := by nlinarith
  rw [icostAt_eq nonneg (by linarith), icostAt_eq nonneg fits]
  have rounded := Int.floor_le_floor prices
  rw [Int.floor_add_one] at rounded
  omega

/-- The search without objects and one whose expanded nodes have the lengths of their trails. -/
structure Stands (planner : Planner ℚ Other) (meter : PlanningStateMeter ℚ Other) (initial : View ℚ Other) (c : ℚ)
    (plain : PlainSearch ℚ Other) (search : LevelSearch (View ℚ Other) (ActionRef ℚ Other)) : Prop where
  frontier : search.frontier = plain.frontier.map Trail.leading
  expanded : search.expanded.map Prod.fst = plain.expanded
  costs : ∀ trail ∈ plain.frontier.contents, trail.cost = c * trail.actions.length
  run : (planner.graph meter).Run initial plain.visited

variable {search : LevelSearch (View ℚ Other) (ActionRef ℚ Other)}

theorem cost_child (vague : meter.monotonic = false) (uniform : Uniform planner meter initial c) {trail : Trail ℚ Other}
    {min : ℚ} (reachable : (planner.graph meter).Reachable initial trail.view)
    (cost : trail.cost = c * trail.actions.length) {spawned : Trail ℚ Other}
    (member : spawned ∈ (plainGather planner meter trail min).1) : spawned.cost = c * spawned.actions.length := by
  obtain ⟨⟨_, distance⟩, listed, rfl⟩ := List.mem_map.mp member
  obtain ⟨action, known, found⟩ := List.mem_filterMap.mp listed
  obtain ⟨next, measuring, same⟩ := Option.map_eq_some_iff.mp found
  have price := uniform _ reachable action known next measuring
  obtain ⟨rfl, -⟩ := Prod.mk.inj same
  simp only [pathCosts, vague, Bool.false_and, Bool.false_eq_true, ↓reduceIte, List.length_cons, Nat.cast_succ, price, cost]
  ring

theorem plainStart_stands (vague : meter.monotonic = false) (uniform : Uniform planner meter initial c) :
    Stands planner meter initial c (plainStart planner meter initial) ((planner.graph meter).levelStart initial) where
  frontier := by
    have children : (plainGather planner meter (root initial) (number 1)).1.map Trail.leading =
        (planner.graph meter).children ([], initial) := plainGather_children (root initial) (number 1)
    simp only [KeyedGraph.levelStart, plainStart]
    rw [← TwoList.settle_map]
    exact congrArg _ (congrArg _ children.symm)
  expanded := rfl
  costs trail member := by
    simp only [plainStart, TwoList.settle_contents] at member
    exact cost_child vague uniform .self (by simp [root, number]) member
  run := plainStart_run planner meter initial

theorem Stands.pop (stands : Stands planner meter initial c plain search) :
    search.pop planner.unvisitedPathes.discipline (icostAt c) =
      ((plain.frontier.pop (PrioritizedQueue.priority Trail.cost) planner.unvisitedPathes.discipline).1.map Trail.leading,
        (plain.frontier.pop (PrioritizedQueue.priority Trail.cost) planner.unvisitedPathes.discipline).2.map Trail.leading) := by
  have price : ∀ trail ∈ plain.frontier.contents,
      PrioritizedQueue.priority Trail.cost trail = icostAt c trail.leading.1.length := by
    intro trail member
    rw [Trail.leading, List.length_reverse, icostAt, ← stands.costs trail member]
    rfl
  have order : ∀ trail ∈ plain.frontier.contents, ∀ other ∈ plain.frontier.contents,
      (icostAt c trail.leading.1.length ≤ icostAt c other.leading.1.length ↔
        PrioritizedQueue.priority Trail.cost trail ≤ PrioritizedQueue.priority Trail.cost other) := by
    intro trail member other member'
    rw [price trail member, price other member']
  rw [LevelSearch.pop, stands.frontier, TwoList.pop_map, ← TwoList.pop_of_order planner.unvisitedPathes.discipline order]
  rfl

/-- An iteration of the one is a step of the other. -/
theorem Stands.step (stands : Stands planner meter initial c plain search) (vague : meter.monotonic = false)
    (uniform : Uniform planner meter initial c) :
    match plainStep planner meter plain with
    | .running next => ∃ search', (planner.graph meter).LevelStep planner.unvisitedPathes.discipline (icostAt c) search search' ∧
        Stands planner meter initial c next search'
    | .reachedGoal trail => ∃ frontier, search.pop planner.unvisitedPathes.discipline (icostAt c) = (some trail.leading, frontier)
    | _ => True := by
  have iteration := plainStep_iteration planner meter plain
  have served := stands.pop
  have contents := TwoList.pop_contents (PrioritizedQueue.priority Trail.cost) planner.unvisitedPathes.discipline plain.frontier
  have sound := stands.run.sound
  unfold plainStep at iteration ⊢
  generalize plain.frontier.pop (PrioritizedQueue.priority Trail.cost) planner.unvisitedPathes.discipline = popped
    at iteration served contents ⊢
  obtain ⟨first, frontier⟩ := popped
  cases first with
  | none => trivial
  | some trail =>
    rcases contents with ⟨_, nothing, _⟩ | ⟨item, own, moved⟩
    · cases nothing
    cases own
    simp only at moved
    have held : ∀ other ∈ frontier.contents, other ∈ plain.frontier.contents := fun other member =>
      moved.mem_iff.mpr (List.mem_cons_of_mem _ member)
    have member := moved.mem_iff.mpr List.mem_cons_self
    simp only [Option.map_some] at served
    by_cases seen : hashOf trail.view.at? ∈ plain.expanded.map fun view => hashOf view.at?
    · simp only [if_pos seen] at iteration ⊢
      cases iteration with
      | running taken =>
        obtain ⟨node, present, same⟩ := List.mem_map.mp seen
        rw [← stands.expanded] at present
        obtain ⟨v, present', rfl⟩ := List.mem_map.mp present
        exact ⟨_, .rejected served ⟨v, present', same⟩,
          ⟨rfl, stands.expanded, fun other left => stands.costs other (held other left), stands.run.step taken⟩⟩
    · simp only [if_neg seen] at iteration ⊢
      cases enough : onView meter.enough trail.view with
      | error e => trivial
      | ok answer =>
        cases answer with
        | true => exact ⟨_, served⟩
        | false =>
          simp only [enough] at iteration ⊢
          cases iteration with
          | running taken =>
            have noGoal : (planner.graph meter).goal trail.view = false := by simp [graph, enough]
            have children : (plainGather planner meter trail plain.minDistance).1.map Trail.leading =
                (planner.graph meter).children trail.leading := plainGather_children trail plain.minDistance
            refine ⟨_, .expanded served noGoal, ?_, ?_, ?_, stands.run.step taken⟩
            · simp only [TwoList.map, List.map_append]
              exact congrArg _ (congrArg _ children.symm)
            · exact congrArg (trail.view :: ·) stands.expanded
            · intro other inside
              rw [TwoList.contents, ← List.append_assoc] at inside
              rcases List.mem_append.mp inside with old | spawned
              · exact stands.costs other (held other old)
              · have leads := sound.leads _ (List.mem_map_of_mem (f := fun trail => (trail.actions.reverse, trail.view)) member)
                exact cost_child vague uniform ⟨_, leads⟩ (stands.costs trail member) spawned

/-- The plan that the loop ends with is the path that was due. -/
theorem plainLoop_due (vague : meter.monotonic = false) (uniform : Uniform planner meter initial c) {fuel : ℕ}
    {plan : List (ActionRef ℚ Other) × List (View ℚ Other)}
    (run : (planner.graph meter).LevelRun planner.unvisitedPathes.discipline (icostAt c) initial search)
    (stands : Stands planner meter initial c plain search)
    (ended : plainLoop planner meter initial fuel plain = some (.ok (some plan))) :
    ∃ search view frontier, (planner.graph meter).LevelRun planner.unvisitedPathes.discipline (icostAt c) initial search ∧
      search.pop planner.unvisitedPathes.discipline (icostAt c) = (some (plan.1, view), frontier) := by
  induction fuel generalizing plain search with
  | zero => cases ended
  | succ fuel ih =>
    unfold plainLoop at ended
    have step := stands.step vague uniform
    generalize plainStep planner meter plain = status at step ended
    cases status with
    | running next =>
      obtain ⟨search', taken, stands'⟩ := step
      exact ih (run.step taken) stands' ended
    | exhausted => cases ended
    | reachedGoal trail =>
      cases ended
      obtain ⟨frontier, served⟩ := step
      exact ⟨search, trail.view, frontier, run, served⟩
    | thrown e => cases ended

theorem keysFollow_icostAt (nonneg : 0 ≤ c) (apart : planner._planningMethod = .DepthFirst → 1 / 10000000 ≤ c) {bound : ℕ}
    (fits : 10000000 * (c * bound) < 2 ^ 31) (lengths : List ℕ) (short : ∀ length ∈ lengths, length ≤ bound) :
    TwoList.KeysFollow planner.unvisitedPathes.discipline (icostAt c) id lengths := by
  have within : ∀ length ∈ lengths, 10000000 * (c * length) < 2 ^ 31 := by
    intro length member
    have counted : (length : ℚ) ≤ bound := by exact_mod_cast short length member
    exact (by gcongr : 10000000 * (c * length) ≤ 10000000 * (c * bound)).trans_lt fits
  cases method : planner._planningMethod with
  | BreadthFirst =>
    have discipline : planner.unvisitedPathes.discipline = .oldest := by simp [unvisitedPathes, method, Prioritized.discipline]
    rw [discipline]
    exact fun x _ y member bound => icostAt_mono nonneg bound (within y member)
  | DepthFirst =>
    have discipline : planner.unvisitedPathes.discipline = .newest := by simp [unvisitedPathes, method, Prioritized.discipline]
    rw [discipline]
    exact fun x _ y member less => icostAt_lt (apart method) less (within y member)

end Planner

/-- Where every step costs the same, no plan of a session is longer than any sequence of actions
that leads to a goal and has an integer price. Depth first, steps cost a ten millionth at least. -/
theorem Session.makePlan_length_le {heap : Heap ℚ Other} {initialState : IWriteState ℚ Other} {result : PlanResult ℚ Other}
    {actionsArray : Option (List (ActionRef ℚ Other))} {states : Option (List (IWriteState ℚ Other))} {fuel : ℕ}
    (session : Session heap) (readable : planner.Readable meter) (vague : meter.monotonic = false) (nonneg : 0 ≤ c)
    (uniform : planner.Uniform meter initialState.view c) (respects : (planner.graph meter).KeyRespects initialState.view)
    (notEnough : meter.enough initialState ≠ .ok true) {actions : List (ActionRef ℚ Other)}
    (ended : planner.makePlan meter initialState heap actionsArray states fuel = some (.ok result))
    (found : result.actionsArray = some actions) {trail : List (ActionRef ℚ Other)} {final : View ℚ Other}
    (leads : (planner.graph meter).Leads initialState.view trail final) (enough : onView meter.enough final = .ok true)
    (fits : 10000000 * (c * (trail.length + 1)) < 2 ^ 31)
    (apart : planner._planningMethod = .DepthFirst → 1 / 10000000 ≤ c) :
    ∃ plan, actions = plan ++ actionsArray.getD [] ∧ plan.length ≤ trail.length := by
  obtain ⟨answer, planned, read⟩ := session.answer readable ended
  have told_actions := congrArg Prod.fst read
  simp only [PlanResult.read, found] at told_actions
  cases answer with
  | none => cases told_actions
  | some plan =>
    refine ⟨plan.1, Option.some.inj told_actions, ?_⟩
    obtain ⟨search, view, frontier, run, served⟩ :=
      Planner.plainLoop_due vague uniform .start (Planner.plainStart_stands vague uniform) planned
    have noGoal : (planner.graph meter).goal initialState.view = false := by
      simp only [Planner.graph, onView_view readable.enough]
      split
      · rename_i answer answered
        cases answer with
        | true => exact absurd answered notEnough
        | false => rfl
      · rfl
    have goal : (planner.graph meter).goal final = true := by simp [Planner.graph, enough]
    exact run.due_le respects noGoal leads goal
      (Planner.keysFollow_icostAt nonneg apart (by exact_mod_cast fits)) served

def farFrom (goal : ℕ) : PlanningStateMeter ℚ ℕ := { toFloor goal with distance := fun _ => .ok 1 }

def deepLift (top : ℕ) (steps : List ℕ) : Planner ℚ ℕ := { lift top steps with _planningMethod := .DepthFirst }

theorem deepLift_readable (top : ℕ) (steps : List ℕ) (goal : ℕ) : (deepLift top steps).Readable (farFrom goal) where
  actions := (lift_readable top steps goal).actions
  distance _ _ _ := rfl
  enough := (lift_readable top steps goal).enough

theorem measured_rise (goal top floors floor : ℕ) : Planner.measured (farFrom goal) (onFloor floor).view (rise top floors) =
    if floor + floors ≤ top then some ((onFloor (floor + floors)).view, 1) else none := by
  have far : onView (farFrom goal).distance (onFloor (floor + floors)).view = .ok 1 :=
    onView_view (deepLift_readable top [floors] goal).distance _
  rw [Planner.measured, allowed_rise, effect_rise]
  by_cases inside : floor + floors ≤ top <;> simp [inside, far]

theorem deepLift_uniform (top : ℕ) (steps : List ℕ) (goal : ℕ) : (deepLift top steps).Uniform (farFrom goal) (onFloor 0).view 1 := by
  intro node reachable action member next found
  have reached : ((lift top steps).graph (farFrom goal)).Reachable (onFloor 0).view node := reachable
  obtain ⟨floor, _, rfl⟩ := lift_views reached
  obtain ⟨floors, _, rfl⟩ := List.mem_map.mp member
  rw [measured_rise] at found
  split at found
  · cases found
    exact one_mul (1 : ℚ)
  · cases found

theorem Session.makePlan_length_le_lift :
    ∃ result actions plan, (deepLift 3 [1, 2]).makePlan (farFrom 3) (onFloor 0) ⟨[], .new, .new⟩ none none 9 =
        some (.ok result) ∧ result.actionsArray = some actions ∧ actions = plan ++ [] ∧
      plan.length ≤ [rise 3 1, rise 3 2].length := by
  have readable := deepLift_readable 3 [1, 2] 3
  have leads : ((deepLift 3 [1, 2]).graph (farFrom 3)).Leads (onFloor 0).view [rise 3 1, rise 3 2] (onFloor 3).view := by
    refine ⟨?_, fun action member => member⟩
    simp only [KeyedGraph.follow, Planner.graph, measured_rise, Option.map_some, Option.bind_some, Nat.zero_add, Nat.reduceAdd,
      Nat.reduceLeDiff, if_true]
  have respects : ((deepLift 3 [1, 2]).graph (farFrom 3)).KeyRespects (onFloor 0).view :=
    lift_respects floors_apart [1, 2] (farFrom 3)
  have ran : ((((deepLift 3 [1, 2]).makePlan (farFrom 3) (onFloor 0) ⟨[], .new, .new⟩ none none 9).bind
      Except.toOption).bind PlanResult.actionsArray).isSome = true := by decide +kernel
  obtain ⟨actions, reported⟩ := Option.isSome_iff_exists.mp ran
  obtain ⟨result, answered, found⟩ := Option.bind_eq_some_iff.mp reported
  obtain ⟨answer, ended, told⟩ := Option.bind_eq_some_iff.mp answered
  cases answer with
  | error e => cases told
  | ok other =>
    cases told
    have notEnough : (farFrom 3).enough (onFloor 0) ≠ .ok true := by simp [farFrom, toFloor]
    obtain ⟨plan, same, short⟩ := Session.makePlan_length_le .new readable rfl zero_le_one (deepLift_uniform 3 [1, 2] 3)
      respects notEnough ended found leads (onView_view readable.enough (onFloor 3)) (by norm_num) (fun _ => by norm_num)
    exact ⟨result, actions, plan, ended, found, same, short⟩

end Goap.AS3
