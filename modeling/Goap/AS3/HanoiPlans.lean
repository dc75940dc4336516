import Goap.AS3.CachedSession
import Goap.AS3.HanoiTowers

namespace Goap.AS3

open NumberOps Foundation

variable {N Other : Type} [ToString Other] [NumberOps N]

namespace HanoiTowers

variable {n : ℕ} {initial at?' : String → Option (Value Other)} {position : Position}
  {initialState goalState : IWriteState N Other}

/-- What can be read along a game: the towers show a position, and all else is as it was. -/
structure Layout (n : ℕ) (initial at?' : String → Option (Value Other)) (position : Position) : Prop where
  shows' : Shows n at?' position
  others : ∀ name, (∀ peg, ∀ i < n, name ≠ concatStringInt (tower peg) (i + 1)) → at?' name = initial name

theorem Layout.step {view next : View N Other} {action : ActionRef N Other} (layout : Layout n initial view.at? position)
    (small : n < 2 ^ 31) (known : action ∈ (planner N Other n)._planningActions)
    (allowed : action.allowed view = .ok true) (effect : action.effect view = .ok next) :
    ∃ disc < n, ∃ dest, position.Movable disc dest ∧ Layout n initial next.at? (position.move disc dest) := by
  obtain ⟨source, dest, apart, rfl⟩ := mem_planner.mp known
  have reads : (moveAction (tower source) (tower dest) n : ActionRef N Other).Reads := moveAction_reads _ _ n
  obtain ⟨state, rfl⟩ := exists_of_onView allowed
  have valid : validate state.toState (tower source) (tower dest) n = true :=
    Except.ok.inj ((onView_view reads.canExecute state).symm.trans allowed)
  obtain ⟨disc, inside, rfl, movable⟩ := (validate_iff small layout.shows' apart).mp valid
  obtain ⟨state', moved, shows', kept⟩ := move_of_shows layout.shows' inside movable
  have changed : ((moveAction (tower (position disc)) (tower dest) n).change ⟨state.toState, number 1⟩).map
      IWriteState.view = .ok next :=
    (onView_view reads.change ⟨state.toState, number 1⟩).symm.trans effect
  simp only [moveAction, ActionRef.change, moved, Except.map, Except.ok.injEq] at changed
  subst changed
  exact ⟨disc, inside, dest, movable, shows', fun name other => (kept name other).trans (layout.others name other)⟩

/-- Executing actions of the planner is playing by the rules. -/
theorem Layout.executes {view : View N Other} {plan : List (ActionRef N Other)} {views : List (View N Other)}
    (layout : Layout n initial view.at? position) (small : n < 2 ^ 31)
    (known : ∀ action ∈ plan, action ∈ (planner N Other n)._planningActions)
    (executes : Planner.Executes view plan views) (k : ℕ) (inside : k ≤ plan.length) :
    ∃ position', Position.Moves n position k position' ∧ ∃ reached, (view :: views)[k]? = some reached ∧
      Layout n initial reached.at? position' := by
  induction executes generalizing position k with
  | nil =>
    obtain rfl := Nat.le_zero.mp inside
    exact ⟨position, .done, _, rfl, layout⟩
  | cons allowed effect _ ih =>
    obtain ⟨first, others⟩ := List.forall_mem_cons.mp known
    cases k with
    | zero => exact ⟨position, .done, _, rfl, layout⟩
    | succ k =>
      obtain ⟨disc, inside', dest, movable, layout'⟩ := layout.step small first allowed effect
      obtain ⟨position', moves, reached⟩ := ih layout' others k (Nat.le_of_succ_le_succ inside)
      exact ⟨position', .move inside' movable moves, reached⟩

omit [ToString Other] [NumberOps N] in
theorem stack_of_allOn {peg : Peg} (all : Position.AllOn n peg position) :
    stack n position peg = (List.range n).reverse := by
  rw [stack, List.filter_eq_self.mpr]
  intro disc inside
  simpa using all disc (List.mem_range.mp inside)

omit [ToString Other] [NumberOps N] in
theorem Shows.place {peg : Peg} (shows' : Shows n at?' position) (all : Position.AllOn n peg position) {i : ℕ}
    (inside : i < n) : at?' (concatStringInt (tower peg) (i + 1)) = some (written i) := by
  have index : n - 1 - (n - 1 - i) = i := by omega
  rw [shows' peg i inside, stack_of_allOn all, List.getElem?_reverse (by simp; omega), List.length_range, index,
    List.getElem?_range inside]
  rfl

variable [Coercions N Other]

omit [ToString Other] [NumberOps N] in
theorem Shows.allOn {peg : Peg} (shows' : Shows n at?' position) (small : n < 2 ^ 31)
    (equal : ∀ i < n, Coercions.looseEq N (at?' (concatStringInt (tower peg) (i + 1))) (some (written i)) = true) :
    Position.AllOn n peg position := by
  intro i inside
  have same := equal i inside
  rw [shows' peg i inside] at same
  cases found : (stack n position peg)[n - 1 - i]? with
  | none =>
    rw [found, Option.map_none, Coercions.looseEq_comm, Coercions.looseEq_null] at same
    cases same
  | some disc =>
    obtain ⟨inside', there⟩ := mem_stack.mp (List.mem_of_getElem? found)
    rw [found, Option.map_some, written, written, Coercions.looseEq_int, beq_iff_eq] at same
    have numbers := congrArg Int32.toInt same
    rw [Int32.toInt_ofNat_of_lt (by omega), Int32.toInt_ofNat_of_lt (by omega)] at numbers
    obtain rfl : disc = i := by omega
    exact there

omit [NumberOps N] in
theorem looseEq_of_enough {state goal : IWriteState N Other} (enough : NumericStateComparer.enough state goal = true)
    {key : String} (present : (goal.toState.at? key).isSome) :
    Coercions.looseEq N (state.toState.at? key) (goal.toState.at? key) = true := by
  refine List.all_eq_true.mp enough key ?_
  by_contra absent
  rw [State.at?, Object.at?_of_notMem absent] at present
  cases present

omit [NumberOps N] in
theorem allOn_of_enough {state goal : IWriteState N Other} (small : n < 2 ^ 31)
    (shows' : Shows n state.toState.at? position) (solved : Shows n goal.toState.at? fun _ => .C)
    (enough : NumericStateComparer.enough state goal = true) : Position.AllOn n .C position := by
  refine shows'.allOn (N := N) small ?_
  intro i inside
  have wanted := solved.place (fun _ _ => rfl) inside
  have present : (goal.toState.at? (concatStringInt (tower .C) (i + 1))).isSome := by simp [wanted]
  have same := looseEq_of_enough enough present
  rwa [wanted] at same

theorem readable (n : ℕ) (initialState goalState : IWriteState N Other) :
    (planner N Other n).Readable (meter n initialState goalState) where
  actions action member := by
    obtain ⟨source, dest, _, rfl⟩ := mem_planner.mp member
    exact moveAction_reads _ _ n
  distance state other same := by
    have read : state.toState.at? = other.toState.at? := congrArg View.at? same
    simp only [meter, fnDistance, ExactStateComparer.distance_congr read, read]
  enough state other same := by
    have read : state.toState.at? = other.toState.at? := congrArg View.at? same
    simp only [meter, NumericStateComparer.enough, read]

/-- A plan solves the game: it is executed in legal moves, over states that show the positions
after them, and ends with all discs on the last peg. -/
def Solves (n : ℕ) (initialState : IWriteState N Other) (position : Position) (plan : List (ActionRef N Other)) : Prop :=
  ∃ views, Planner.Executes initialState.view plan views ∧ ∀ k ≤ plan.length,
    ∃ position', Position.Moves n position k position' ∧ ∃ reached, (initialState.view :: views)[k]? = some reached ∧
      Layout n initialState.toState.at? reached.at? position' ∧ (k = plan.length → Position.AllOn n .C position')

theorem solves_of_enough {plan : List (ActionRef N Other)} {views : List (View N Other)} {state goal : IWriteState N Other}
    (small : n < 2 ^ 31) (shows' : Shows n initialState.toState.at? position)
    (known : ∀ action ∈ plan, action ∈ (planner N Other n)._planningActions)
    (executes : Planner.Executes initialState.view plan views)
    (last : state.view.at? = (views.getLastD initialState.view).at?)
    (solved : Shows n goal.toState.at? fun _ => .C) (enough : NumericStateComparer.enough state goal = true) :
    Solves n initialState position plan := by
  refine ⟨views, executes, ?_⟩
  intro k inside
  have layout : Layout n initialState.toState.at? initialState.view.at? position := ⟨shows', fun _ _ => rfl⟩
  obtain ⟨position', moves, reached, found, layout'⟩ := layout.executes small known executes k inside
  refine ⟨position', moves, reached, found, layout', ?_⟩
  rintro rfl
  rw [executes.last, Option.some.injEq] at found
  subst found
  rw [← last] at layout'
  exact allOn_of_enough small layout'.shows' solved enough

/-- In every session, whatever was asked for before, the plan that the solver gets begins with
a solution by the rules, which has at least as many moves as the game needs. -/
theorem cached_plan_solves {world world' : World N Other} {actionsArray states : Option ℕ} {fuel id : ℕ}
    (session : CachedSession (planner N Other n) world) (fresh : Fresh world actionsArray states) (small : n < 2 ^ 31)
    (shows' : Shows n initialState.toState.at? position) (solved : Shows n goalState.toState.at? fun _ => .C)
    (ended : (planner N Other n).makePlanCached (meter n initialState goalState) world initialState actionsArray states
      fuel = some (.ok (some id, world'))) :
    ∃ solution rest, world'.plan id = solution ++ rest ∧ Solves n initialState position solution ∧
      Position.need .C position n ≤ solution.length ∧
      ∀ peg, peg ≠ .C → Position.AllOn n peg position → 2 ^ n ≤ solution.length + 1 := by
  suffices solves : ∃ solution rest, world'.plan id = solution ++ rest ∧ Solves n initialState position solution by
    obtain ⟨solution, rest, split, views, executes, along⟩ := solves
    obtain ⟨position', moves, _, _, _, all⟩ := along solution.length (Nat.le_refl _)
    have bound := moves.need_le .C
    rw [Position.need_eq_zero_iff.mpr (all rfl), Nat.zero_add] at bound
    refine ⟨solution, rest, split, ⟨views, executes, along⟩, bound, ?_⟩
    intro peg elsewhere begun
    have needed := Position.need_of_allOn .C begun elsewhere
    omega
  cases (Planner.makePlanCached_spec session.sound (readable n initialState goalState) fresh ended).1 with
  | @planned _ _ final sound nonempty leads enough =>
    obtain ⟨followed, known⟩ := leads
    rw [← List.reverse_reverse (world'.plan id)] at followed
    obtain ⟨executes, last⟩ := Planner.executes_of_follow followed
    rw [List.reverse_reverse] at executes
    obtain ⟨state, rfl⟩ := exists_of_onView enough
    rw [onView_view (readable n initialState goalState).enough] at enough
    refine ⟨world'.plan id, [], (List.append_nil _).symm, ?_⟩
    exact solves_of_enough small shows' known executes (congrArg View.at? last.symm) solved (Except.ok.inj enough)
  | cached sound member bound same statePool accepted =>
    have known : ∀ action ∈ world'.plan id, action ∈ (planner N Other n)._planningActions := by
      intro action inside
      rw [same] at inside
      exact (session.sound.entries _ _ member).known action (List.mem_of_mem_drop inside)
    have reads : ∀ action ∈ world'.plan id, action.Reads := fun action inside =>
      (readable n initialState goalState).actions action (known action inside)
    obtain ⟨done, rest, views, split, executes, last⟩ := Planner.executed_prefix reads initialState statePool
    have cloned : ((meter n initialState goalState).goalState.clone world.heap.statePool).1.toState.at? =
        goalState.toState.at? := congrArg View.at? (goalState.view_clone world.heap.statePool)
    refine ⟨done, rest, split, ?_⟩
    refine solves_of_enough small shows' (fun action inside => known action ?_) executes last (cloned ▸ solved) accepted
    rw [split]
    exact List.mem_append_left _ inside

/-- A state that shows a position, and nothing else. -/
def board (n : ℕ) (position : Position) : IWriteState ℚ ℕ where
  toState := [Peg.A, .B, .C].foldl (fun state peg => (List.range n).foldl (fun state i =>
    match (stack n position peg)[n - 1 - i]? with
    | none => state
    | some disc => state.put (concatStringInt (tower peg) (i + 1)) (some (written disc))) state) .new
  cost := 1

def apartFrom (peg smallest : Peg) : Position := Position.move (fun _ => peg) 0 smallest

theorem shows_board (peg smallest : Peg) : Shows 2 (board 2 (apartFrom peg smallest)).toState.at? (apartFrom peg smallest) := by
  intro other i inside
  obtain rfl | rfl : i = 0 ∨ i = 1 := by omega
  · cases peg <;> cases smallest <;> cases other <;> decide
  · cases peg <;> cases smallest <;> cases other <;> decide

theorem cached_plan_solves_two : ∃ world world' : World ℚ ℕ, ∃ solution rest,
    (planner ℚ ℕ 2).makePlanCached (meter 2 (board 2 (apartFrom .A .A)) (board 2 (apartFrom .C .C))) .new
      (board 2 (apartFrom .A .A)) none none 60 = some (.ok (some 0, world)) ∧
    (planner ℚ ℕ 2).makePlanCached (meter 2 (board 2 (apartFrom .A .B)) (board 2 (apartFrom .C .C))) world
      (board 2 (apartFrom .A .B)) none none 60 = some (.ok (some 1, world')) ∧
    world'.plan 1 = solution ++ rest ∧ Solves 2 (board 2 (apartFrom .A .B)) (apartFrom .A .B) solution ∧
    2 ≤ solution.length := by
  have ran : (((planner ℚ ℕ 2).makePlanCached (meter 2 (board 2 (apartFrom .A .A)) (board 2 (apartFrom .C .C))) .new
      (board 2 (apartFrom .A .A)) none none 60).bind Except.toOption).bind (fun first =>
        (((planner ℚ ℕ 2).makePlanCached (meter 2 (board 2 (apartFrom .A .B)) (board 2 (apartFrom .C .C))) first.2
          (board 2 (apartFrom .A .B)) none none 60).bind Except.toOption).map fun second => (first.1, second.1)) =
      some (some 0, some 1) := by decide +kernel
  obtain ⟨⟨answer, world⟩, answered, next⟩ := Option.bind_eq_some_iff.mp ran
  obtain ⟨⟨answer', world'⟩, answered', told⟩ := Option.map_eq_some_iff.mp next
  obtain ⟨made, ended, taken⟩ := Option.bind_eq_some_iff.mp answered
  obtain ⟨made', ended', taken'⟩ := Option.bind_eq_some_iff.mp answered'
  cases made with
  | error e => cases taken
  | ok made =>
    cases made' with
    | error e => cases taken'
    | ok made' =>
      cases taken
      cases taken'
      obtain ⟨rfl, rfl⟩ := Prod.mk.inj told
      have session : CachedSession (planner ℚ ℕ 2) (after (.ok (some 0, world))) :=
        .called .new (readable 2 _ _) ⟨by simp, by simp⟩ ended
      obtain ⟨solution, rest, split, solves, needed, _⟩ := cached_plan_solves session ⟨by simp, by simp⟩ (by decide)
        (shows_board .A .B) (shows_board .C .C) ended'
      exact ⟨world, world', solution, rest, ended, ended', split, solves, needed⟩

omit [Coercions N Other] in
/-- A move that the rules allow is made by an action of the planner. -/
theorem Layout.moved {state : IWriteState N Other} (layout : Layout n initial state.view.at? position)
    (small : n < 2 ^ 31) {disc : ℕ} {dest : Peg} (inside : disc < n) (movable : position.Movable disc dest) :
    ∃ next : IWriteState N Other, Layout n initial next.view.at? (position.move disc dest) ∧
      ∃ action ∈ (planner N Other n)._planningActions, action.allowed state.view = .ok true ∧
        action.effect state.view = .ok next.view := by
  obtain ⟨state', moved, shows', kept⟩ := move_of_shows layout.shows' inside movable
  have layout' : Layout n initial state'.at? (position.move disc dest) :=
    ⟨shows', fun name other => (kept name other).trans (layout.others name other)⟩
  let action : ActionRef N Other := moveAction (tower (position disc)) (tower dest) n
  let next : IWriteState N Other := ⟨state', number 1⟩
  have reads : action.Reads := moveAction_reads _ _ n
  have valid := (validate_iff small layout.shows' movable.leaves).mpr ⟨disc, inside, rfl, movable⟩
  have allowed : action.allowed state.view = .ok true := by
    refine (onView_view reads.canExecute state).trans ?_
    simp only [action, ActionRef.canExecute, moveAction, valid]
  have effect : action.effect state.view = .ok next.view := by
    refine (onView_view reads.change ⟨state.toState, number 1⟩).trans ?_
    simp only [action, ActionRef.change, moveAction, moved, Except.map, next]
  exact ⟨next, layout', action, mem_planner.mpr ⟨_, _, movable.leaves, rfl⟩, allowed, effect⟩

omit [Coercions N Other] in
theorem executes_of_moves {position' : Position} {count : ℕ} {state : IWriteState N Other}
    (moves : Position.Moves n position count position') (small : n < 2 ^ 31)
    (layout : Layout n initial state.view.at? position) :
    ∃ plan views, (∀ action ∈ plan, action ∈ (planner N Other n)._planningActions) ∧ plan.length = count ∧
      Planner.Executes state.view plan views ∧
      ∃ state' : IWriteState N Other, state'.view = views.getLastD state.view ∧ Layout n initial state'.view.at? position' := by
  induction moves generalizing state with
  | done => exact ⟨[], [], by simp, rfl, .nil, state, rfl, layout⟩
  | move inside movable _ ih =>
    obtain ⟨next, layout', action, known, allowed, effect⟩ := layout.moved small inside movable
    obtain ⟨plan, views, others, length, executes, state', last, layout''⟩ := ih layout'
    refine ⟨action :: plan, next.view :: views, List.forall_mem_cons.mpr ⟨known, others⟩, congrArg (· + 1) length,
      .cons allowed effect executes, state', ?_, layout''⟩
    rw [List.getLastD_cons]
    exact last

/-- The planner measures whatever its actions lead to. -/
theorem follow_of_executes {view : View N Other} {plan : List (ActionRef N Other)} {views : List (View N Other)}
    (known : ∀ action ∈ plan, action ∈ (planner N Other n)._planningActions) (executes : Planner.Executes view plan views) :
    ((planner N Other n).graph (meter n initialState goalState)).follow view plan = some (views.getLastD view) := by
  induction executes with
  | nil => rfl
  | @cons view next action _ views allowed effect _ ih =>
    obtain ⟨first, others⟩ := List.forall_mem_cons.mp known
    obtain ⟨source, dest, _, rfl⟩ := mem_planner.mp first
    have reads : (moveAction (tower source) (tower dest) n : ActionRef N Other).Reads := moveAction_reads _ _ n
    obtain ⟨state, same⟩ := exists_of_onView effect
    have changed := effect
    rw [ActionRef.effect, ← same, onView_view reads.change] at changed
    obtain ⟨state', _, rfl⟩ : ∃ state', (moveAction (tower source) (tower dest) n : ActionRef N Other).change state = .ok state' ∧
        state'.view = next := by
      cases ran : (moveAction (tower source) (tower dest) n : ActionRef N Other).change state with
      | error e =>
        simp only [ran, Except.map] at changed
        cases changed
      | ok state' =>
        simp only [ran, Except.map, Except.ok.injEq] at changed
        exact ⟨state', rfl, changed⟩
    have distance : onView (meter n initialState goalState).distance state'.view = .ok _ :=
      onView_view (readable n initialState goalState).distance state'
    have moved : ((planner N Other n).graph (meter n initialState goalState)).next view
        (moveAction (tower source) (tower dest) n) = some state'.view := by
      simp only [Planner.graph, Planner.measured, allowed, effect, distance, Option.map_some]
    rw [KeyedGraph.follow, moved, Option.bind_some, ih others, List.getLastD_cons]

/-- What the planner reaches are states of the game. -/
theorem layout_of_reachable (small : n < 2 ^ 31) (shows' : Shows n initialState.toState.at? position)
    {node : View N Other}
    (reachable : ((planner N Other n).graph (meter n initialState goalState)).Reachable initialState.view node) :
    ∃ state : IWriteState N Other, state.view = node ∧ ∃ position', Layout n initialState.toState.at? node.at? position' := by
  refine reachable.invariant (fun node => ∃ state : IWriteState N Other, state.view = node ∧
    ∃ position', Layout n initialState.toState.at? node.at? position') ⟨_, rfl, position, shows', fun _ _ => rfl⟩ ?_
  rintro node ⟨state, rfl, position, layout⟩ action known next moved
  obtain ⟨child, measuring, rfl⟩ := Option.map_eq_some_iff.mp moved
  obtain ⟨allowed, effect, distance⟩ := Planner.measured_spec measuring
  obtain ⟨disc, _, dest, _, layout'⟩ := layout.step small known allowed effect
  obtain ⟨state', same⟩ := exists_of_onView distance
  exact ⟨state', same, _, layout'⟩

theorem next_congr {state other : IWriteState N Other} (same : state.view.at? = other.view.at?)
    {action : ActionRef N Other} (known : action ∈ (planner N Other n)._planningActions) :
    ((planner N Other n).graph (meter n initialState goalState)).next state.view action =
      ((planner N Other n).graph (meter n initialState goalState)).next other.view action := by
  obtain ⟨source, dest, _, rfl⟩ := mem_planner.mp known
  have reads : (moveAction (tower source) (tower dest) n : ActionRef N Other).Reads := moveAction_reads _ _ n
  have allowed : (moveAction (tower source) (tower dest) n).allowed state.view =
      (moveAction (tower source) (tower dest) n).allowed other.view := by
    refine (onView_view reads.canExecute state).trans (Eq.trans ?_ (onView_view reads.canExecute other).symm)
    exact congrArg Except.ok (validate_congr same _ _)
  have effect : (moveAction (tower source) (tower dest) n).effect state.view =
      (moveAction (tower source) (tower dest) n).effect other.view := by
    rw [ActionRef.effect, ActionRef.effect, same]
  simp only [Planner.graph, Planner.measured, allowed, effect]

omit [NumberOps N] in
theorem enough_of_allOn {state goal : IWriteState N Other} (shows' : Shows n state.toState.at? position)
    (all : Position.AllOn n .C position) (solved : Shows n goal.toState.at? fun _ => .C)
    (only : ∀ key ∈ goal.toState.map.keys, ∃ i < n, key = concatStringInt (tower .C) (i + 1)) :
    NumericStateComparer.enough state goal = true := by
  refine List.all_eq_true.mpr ?_
  intro key member
  obtain ⟨i, inside, rfl⟩ := only key member
  rw [shows'.place all inside, solved.place (fun _ _ => rfl) inside, written, Coercions.looseEq_int]
  exact beq_self_eq_true _

theorem enough_view (state : IWriteState N Other) : onView (meter n initialState goalState).enough state.view =
    .ok (NumericStateComparer.enough state goalState) :=
  onView_view (readable n initialState goalState).enough state

theorem goal_view (state : IWriteState N Other) :
    ((planner N Other n).graph (meter n initialState goalState)).goal state.view =
      NumericStateComparer.enough state goalState := by
  simp only [Planner.graph, enough_view]

def Alike (node other : View N Other) : Prop :=
  ∃ state state' : IWriteState N Other, state.view = node ∧ state'.view = other ∧ state.view.at? = state'.view.at?

theorem bisimilar (n : ℕ) (initialState goalState : IWriteState N Other) :
    ((planner N Other n).graph (meter n initialState goalState)).Bisimilar Alike where
  key node other alike := by
    obtain ⟨state, state', rfl, rfl, same⟩ := alike
    exact congrArg hashOf same
  goal node other alike := by
    obtain ⟨state, state', rfl, rfl, same⟩ := alike
    have read : state.toState.at? = state'.toState.at? := same
    simp only [goal_view, NumericStateComparer.enough, read]
  next node other alike action known next moved := by
    obtain ⟨state, state', rfl, rfl, same⟩ := alike
    obtain ⟨child, measuring, same'⟩ := Option.map_eq_some_iff.mp moved
    obtain ⟨reached, there⟩ := exists_of_onView (Planner.measured_spec measuring).2.2
    exact ⟨next, (next_congr same known).symm.trans moved, reached, reached, there.trans same', there.trans same', rfl⟩

theorem exists_solution (small : n < 2 ^ 31) (shows' : Shows n initialState.toState.at? position)
    (solved : Shows n goalState.toState.at? fun _ => .C)
    (only : ∀ key ∈ goalState.toState.map.keys, ∃ i < n, key = concatStringInt (tower .C) (i + 1)) :
    ∃ plan, (∀ action ∈ plan, action ∈ (planner N Other n)._planningActions) ∧ Solves n initialState position plan ∧
      plan.length = Position.need .C position n := by
  have layout : Layout n initialState.toState.at? initialState.view.at? position := ⟨shows', fun _ _ => rfl⟩
  obtain ⟨position', moves, all⟩ := Position.solvable .C position n
  obtain ⟨plan, views, known, length, executes, state, last, layout'⟩ := executes_of_moves moves small layout
  have goal := enough_of_allOn layout'.shows' all solved only
  exact ⟨plan, known, solves_of_enough small shows' known executes (congrArg View.at? last) solved goal, length⟩

/-- A search that has expanded all it can reach and no goal has lost each solution on its way. -/
theorem mistaken_of_sound {expanded : List (IWriteState N Other)} {plan : List (ActionRef N Other)} (small : n < 2 ^ 31)
    (shows' : Shows n initialState.toState.at? position) (solved : Shows n goalState.toState.at? fun _ => .C)
    (only : ∀ key ∈ goalState.toState.map.keys, ∃ i < n, key = concatStringInt (tower .C) (i + 1))
    (unsolved : ¬ Position.AllOn n .C position)
    (sound : ((planner N Other n).graph (meter n initialState goalState)).Sound initialState.view
      ⟨expanded.map IWriteState.view, []⟩)
    (known : ∀ action ∈ plan, action ∈ (planner N Other n)._planningActions)
    (solution : Solves n initialState position plan) :
    ∃ k ≤ plan.length, ∃ views, ∃ passed : IWriteState N Other,
      Planner.Executes initialState.view (plan.take k) views ∧ passed.view = views.getLastD initialState.view ∧
      ∃ known ∈ expanded, known.toState.hash.1 = passed.toState.hash.1 ∧ known.toState.at? ≠ passed.toState.at? := by
  let graph := (planner N Other n).graph (meter n initialState goalState)
  obtain ⟨views, executes, along⟩ := solution
  obtain ⟨position', _, reached, found, layout', all⟩ := along plan.length (Nat.le_refl _)
  rw [executes.last, Option.some.injEq] at found
  have leads : graph.Leads initialState.view plan reached := ⟨found ▸ follow_of_executes known executes, known⟩
  obtain ⟨state, rfl, _⟩ := layout_of_reachable small shows' ⟨plan, leads⟩
  have goal : graph.goal state.view = true :=
    (goal_view state).trans (enough_of_allOn layout'.shows' (all rfl) solved only)
  have begins : graph.goal initialState.view = false := by
    rw [goal_view, Bool.eq_false_iff]
    exact fun ends => unsolved (allOn_of_enough small shows' solved ends)
  -- the first node of the way that is not alike to an expanded one has the hash of one
  obtain ⟨k, inside, passed, followed, other, expanded, key, apart⟩ := sound.mistaken (bisimilar n initialState goalState)
    rfl ⟨initialState, initialState, rfl, rfl, rfl⟩ begins leads goal
  obtain ⟨reached, there, _⟩ := layout_of_reachable small shows'
    ⟨plan.take k, followed, fun action taken => known action (List.mem_of_mem_take taken)⟩
  obtain ⟨known', member, rfl⟩ := List.mem_map.mp expanded
  rw [← List.reverse_reverse (plan.take k)] at followed
  obtain ⟨trace, ended⟩ := Planner.executes_of_follow followed
  rw [List.reverse_reverse] at trace
  refine ⟨k, inside, _, reached, trace, there.trans ended.symm, known', member, ?_, ?_⟩
  · rw [hash_eq_hashOf, hash_eq_hashOf, there]
    exact key
  · intro same
    exact apart ⟨reached, known', there, rfl, same.symm⟩

/-- The planner solves every game that is not solved, unless each solution runs through a state that
it takes, by its hash, for another one that it has expanded. -/
theorem plan_found {heap : Heap N Other} {actionsArray : Option (List (ActionRef N Other))}
    {states : Option (List (IWriteState N Other))} {fuel : ℕ} (session : Session heap) (small : n < 2 ^ 31)
    (shows' : Shows n initialState.toState.at? position) (solved : Shows n goalState.toState.at? fun _ => .C)
    (only : ∀ key ∈ goalState.toState.map.keys, ∃ i < n, key = concatStringInt (tower .C) (i + 1))
    (unsolved : ¬ Position.AllOn n .C position) (enough : UInt32.size * 6 < fuel) :
    (∃ plan, (∀ action ∈ plan, action ∈ (planner N Other n)._planningActions) ∧ Solves n initialState position plan ∧
      plan.length = Position.need .C position n) ∧
    ∃ result, (planner N Other n).makePlan (meter n initialState goalState) initialState heap actionsArray states fuel =
        some (.ok result) ∧
      (result.actionsArray = none → ∀ plan, (∀ action ∈ plan, action ∈ (planner N Other n)._planningActions) →
        Solves n initialState position plan → ∃ k ≤ plan.length, ∃ views, ∃ passed : IWriteState N Other,
          Planner.Executes initialState.view (plan.take k) views ∧ passed.view = views.getLastD initialState.view ∧
          ∃ known ∈ result.search.expanded, known.toState.hash.1 = passed.toState.hash.1 ∧
            known.toState.at? ≠ passed.toState.at?) := by
  let graph := (planner N Other n).graph (meter n initialState goalState)
  have game := readable n initialState goalState
  refine ⟨exists_solution small shows' solved only, ?_⟩
  obtain ⟨last, answer, result, run, ends, ended, read⟩ := session.told_by_last game initialState actionsArray states enough
  cases result with
  | error thrown =>
    cases ends with
    | exhausted _ => cases read
    | reachedGoal _ _ _ => cases read
    | @thrown trail e taken failed =>
      have reached : graph.Reachable initialState.view trail.view := ⟨_, run.sound.leads _
        (List.mem_map_of_mem (f := fun trail => (trail.actions.reverse, trail.view)) taken)⟩
      obtain ⟨state, shown, _⟩ := layout_of_reachable small shows' reached
      rw [← shown, enough_view] at failed
      cases failed
  | ok result =>
    refine ⟨result, ended, ?_⟩
    intro null plan known solution
    have sound := Session.exhausted_of_null game (Planner.start_simulates game session.pool initialState)
      (Planner.plainStart_run _ _ _) ended null
    exact mistaken_of_sound small shows' solved only unsolved sound known solution

theorem plan_found_two : ∃ result actions, (planner ℚ ℕ 2).makePlan
    (meter 2 (board 2 (apartFrom .A .A)) (board 2 (apartFrom .C .C))) (board 2 (apartFrom .A .A)) ⟨[], .new, .new⟩ none none
      (UInt32.size * 6 + 1) = some (.ok result) ∧ result.actionsArray = some actions ∧
    ∃ plan, Solves 2 (board 2 (apartFrom .A .A)) (apartFrom .A .A) plan ∧ plan.length = 3 := by
  have ran : (((planner ℚ ℕ 2).makePlan (meter 2 (board 2 (apartFrom .A .A)) (board 2 (apartFrom .C .C)))
      (board 2 (apartFrom .A .A)) ⟨[], .new, .new⟩ none none (UInt32.size * 6 + 1)).bind Except.toOption).any
      (fun result => result.actionsArray.isSome) = true := by decide +kernel
  have only : ∀ key ∈ (board 2 (apartFrom .C .C)).toState.map.keys, ∃ i < 2, key = concatStringInt (tower .C) (i + 1) := by
    decide +kernel
  have unsolved : ¬ Position.AllOn 2 .C (apartFrom .A .A) := fun all => by cases all 0 (by decide)
  obtain ⟨⟨plan, _, solves, length⟩, result, ended, _⟩ := plan_found .new (by decide) (shows_board .A .A) (shows_board .C .C)
    only unsolved (Nat.lt_succ_self _)
  rw [ended] at ran
  obtain ⟨actions, found⟩ := Option.isSome_iff_exists.mp ran
  exact ⟨result, actions, ended, found, plan, solves, length⟩

end HanoiTowers

end Goap.AS3
