import Goap.Foundation.Starvation
import Goap.Search.CostResolution
import Goap.Search.Shortest

namespace Goap.Planner

open FloatOps Foundation

variable {F : Type} [FloatOps F]

/-- A goal is so many steps away. -/
inductive GoalIn (planner : Planner F) (meter : PlanningStateMeter F) : ℕ → State F → Prop where
  | here (enough : meter.enough state = .ok true) : GoalIn planner meter 0 state
  | step (first : Step planner state next) (rest : GoalIn planner meter steps next) : GoalIn planner meter (steps + 1) state

section

variable {planner : Planner F} {meter : PlanningStateMeter F} {initialState : State F} {search : Search F}
  {machine : TwoList (PathPtr F)} {same : State F → State F → Prop}

theorem goalIn_of_executes {state : State F} {actions : List (PlanningAction F)} {states : List (State F)}
    (trace : Executes state actions states) (known : ∀ action ∈ actions, action ∈ planner.planningActions)
    (enough : meter.enough (reached state states) = .ok true) : GoalIn planner meter actions.length state := by
  induction trace with
  | nil => exact .here enough
  | @cons state next action actions states allowed step rest ih =>
    rw [reached_cons] at enough
    exact .step ⟨action, known action (by simp), allowed, step⟩ (ih (fun other member => known other (by simp [member])) enough)

theorem GoalIn.congr (coherent : Coherent planner meter initialState same) {steps : ℕ} {state other : State F}
    (goal : GoalIn planner meter steps state) (alike : same state other) : GoalIn planner meter steps other := by
  induction goal generalizing other with
  | here enough => exact .here ((coherent.enough _ _ alike).symm.trans enough)
  | step first _ ih =>
    obtain ⟨next', first', alike'⟩ := coherent.step _ _ _ alike first
    exact .step first' (ih alike')

theorem Covering.ahead (coherent : Coherent planner meter initialState same) {depths : List (State F × ℕ)}
    (covering : Covering (fun _ => 0) planner meter initialState search machine depths) {v : State F × ℕ} {steps : ℕ}
    (member : v ∈ depths) (goal : GoalIn planner meter steps v.1) :
    ∃ pointer ∈ machine.contents, ∃ target, Leads initialState search.nodes pointer.id target ∧
      ∃ rest < steps, GoalIn planner meter rest target := by
  induction steps generalizing v with
  | zero =>
    cases goal with
    | here enough => exact absurd enough (covering.notEnough v member)
  | succ steps ih =>
    cases goal with
    | @step _ next _ first rest =>
      rcases covering.closed v member next first with ⟨w, present, found, _⟩ | ⟨pointer, waiting, leads, _⟩
      · have alike := coherent.found ((covering.reachable v member).step first) (covering.reachable w present) found
        obtain ⟨pointer, waiting, target, leads, fewer, less, goal⟩ := ih present (rest.congr coherent alike)
        exact ⟨pointer, waiting, target, leads, fewer, less.trans (Nat.lt_succ_self _), goal⟩
      · exact ⟨pointer, waiting, next, leads, steps, Nat.lt_succ_self _, rest⟩

end

variable {planner : Planner ℚ} {meter : PlanningStateMeter ℚ} {initialState : State ℚ} {search : Search ℚ}
  {machine : TwoList (PathPtr ℚ)} {same : State ℚ → State ℚ → Prop}

/-- Every step costs a hundredth at least, the width of a bucket. -/
def Resolved (planner : Planner ℚ) (meter : PlanningStateMeter ℚ) (initialState : State ℚ) : Prop :=
  ∀ state next, Reachable planner initialState state → Step planner state next →
    ∃ distance, meter.distance next = .ok distance ∧ 1 / 100 ≤ distance * next.cost

theorem Resolved.measures (resolved : Resolved planner meter initialState) : Measures planner meter initialState := by
  intro state next reachable step
  obtain ⟨distance, measured, _⟩ := resolved state next reachable step
  exact ⟨distance, measured⟩

/-- The keys of the paths that wait fit into an `int64_t`. -/
def Fits (search : Search ℚ) : Prop :=
  ∀ path, search.unvisitedPaths.Held path ∨ path ∈ search.unvisitedPaths.lazyArray → 100 * path.cost + 1 / 2 < 2 ^ 63

theorem Fits.contents (fits : Fits search) (searching : Searching planner initialState search machine) {path : PathPtr ℚ}
    (member : path ∈ machine.contents) : 100 * path.cost + 1 / 2 < 2 ^ 63 := by
  obtain ⟨holds, pending⟩ := searching.queue
  refine fits path ?_
  rcases List.mem_append.mp member with active | lazy
  · exact .inl ((holds.held_iff path).mpr active)
  · exact .inr (pending ▸ lazy)

theorem priority_lt {path child : PathPtr ℚ} (nonneg : 0 ≤ path.cost) (dearer : path.cost + 1 / 100 ≤ child.cost)
    (fits : 100 * child.cost + 1 / 2 < 2 ^ 63) :
    PrioritizedQueue.priority PathPtr.cost path < PrioritizedQueue.priority PathPtr.cost child := by
  have key {path : PathPtr ℚ} (nonneg : 0 ≤ path.cost) : PrioritizedQueue.priority PathPtr.cost path =
      max Int64.minValue.toInt (min ⌊100 * path.cost + 1 / 2⌋ Int64.maxValue.toInt) := by
    rw [PrioritizedQueue.priority, PrioritizedQueue.bucketKey_eq, toInt_ofIntClamp, truncate_of_nonneg (by positivity)]
  have costs : 100 * path.cost + 1 / 2 + 1 ≤ 100 * child.cost + 1 / 2 := by linarith
  have rounded := Int.floor_le_floor costs
  rw [Int.floor_add_one] at rounded
  have above : 0 ≤ ⌊100 * path.cost + 1 / 2⌋ := Int.floor_nonneg.mpr (by positivity)
  have below : ⌊100 * child.cost + 1 / 2⌋ < 2 ^ 63 := by
    rw [Int.floor_lt]
    exact_mod_cast fits
  have lowest : Int64.minValue.toInt = -2 ^ 63 := by decide
  have highest : Int64.maxValue.toInt = 2 ^ 63 - 1 := by decide
  rw [key nonneg, key (by linarith), lowest, highest]
  omega

theorem Spawned.dearer {nodes nodes' : PathNodes ℚ} {parent : Option ℕ} {pathCost min : ℚ} {state : State ℚ}
    {pointers : List (PathPtr ℚ)}
    (spawned : Spawned nodes nodes' parent (children planner meter pathCost min state) pointers)
    (vague : meter.monotonic = false) (resolved : Resolved planner meter initialState)
    (reachable : Reachable planner initialState state) : ∀ pointer ∈ pointers, pathCost + 1 / 100 ≤ pointer.cost := by
  intro pointer member
  obtain ⟨⟨action, cost⟩, spawn, _, own, _⟩ := exists_right_of_forall₂ spawned.lines member
  obtain ⟨known, found⟩ := mem_children.mp spawn
  obtain ⟨allowed, next, executed⟩ := childCost_eq_some found
  obtain ⟨distance, measured, price⟩ := resolved state next reachable ⟨action, known, allowed, executed⟩
  simp only [childCost, allowed, executed, measured, pathCosts, vague, Bool.false_and, Bool.false_eq_true,
    ↓reduceIte, Option.some.injEq] at found
  rw [own, ← found]
  linarith

/-- From a search in which some path waits on the way to a goal, the main loop comes to a plan.
The steps from its end to the goal go down whenever it is served, and its rank until then. -/
theorem Covering.finds (coherent : Coherent planner meter initialState same) (vague : meter.monotonic = false)
    (resolved : Resolved planner meter initialState)
    (answers : ∀ state, Reachable planner initialState state → ∃ answer, meter.enough state = .ok answer)
    (fits : ∀ search, Explored planner meter initialState search → Fits search) (pStates : Option (List (State ℚ)))
    {depths : List (State ℚ × ℕ)} (explored : Explored planner meter initialState search)
    (covering : Covering (fun _ => 0) planner meter initialState search machine depths)
    (costs : ∀ pointer ∈ machine.contents, 0 ≤ pointer.cost) {pointer : PathPtr ℚ} {target : State ℚ} {steps : ℕ}
    (waits : pointer ∈ machine.contents) (leads : Leads initialState search.nodes pointer.id target)
    (goal : GoalIn planner meter steps target) :
    ∃ fuel result, Planner.mainLoop planner meter initialState [] pStates fuel search = some (.ok result) ∧
      result.actionsArray ≠ [] := by
  generalize measure : toLex (steps, machine.rank (PrioritizedQueue.priority PathPtr.cost)
    (planner.planningActions.length + 1) pointer) = rank
  induction rank using WellFoundedLT.induction generalizing search machine depths pointer target steps with
  | ind rank ih =>
    subst measure
    have iteration := covering.searching.iteration meter
    generalize status : loopStep planner meter initialState search = outcome at iteration
    suffices next : ∀ search', outcome = .running search' → ∃ fuel result,
        Planner.mainLoop planner meter initialState [] pStates fuel search' = some (.ok result) ∧ result.actionsArray ≠ [] by
      cases iteration with
      | exhausted drained _ =>
        rw [drained] at waits
        cases waits
      | thrown pops failed =>
        obtain ⟨answer, answered⟩ := answers _ (pops.leads.reachable covering.searching)
        cases failed.symm.trans answered
      | reachedGoal pops _ _ nodes after =>
        obtain ⟨bound, states, trace, _⟩ := pops.leads
        rw [← nodes] at bound trace
        obtain ⟨result, found, actions, _⟩ := after.reportGoal trace pStates
        refine ⟨1, result, by simp only [Planner.mainLoop, status, found], ?_⟩
        rw [actions]
        exact Path.actionsTo_ne_nil bound
      | rejected _ _ _ _ _ =>
        obtain ⟨fuel, result, ran, planned⟩ := next _ rfl
        exact ⟨fuel + 1, result, by simp only [Planner.mainLoop, status, ran], planned⟩
      | expanded _ _ _ _ _ _ =>
        obtain ⟨fuel, result, ran, planned⟩ := next _ rfl
        exact ⟨fuel + 1, result, by simp only [Planner.mainLoop, status, ran], planned⟩
    intro search' ran
    subst ran
    have explored' := explored.step status
    cases iteration with
    | @rejected path machine' state _ pops seen nodes visited after =>
      have covering' := covering.rejected pops (fun _ _ => Nat.le_refl _) seen nodes visited after
      have costs' : ∀ pointer ∈ machine'.contents, 0 ≤ pointer.cost := fun other member =>
        costs other ((popped_contents pops.pop).mem_iff.mpr (List.mem_cons_of_mem _ member))
      by_cases own : pointer = path
      · subst own
        obtain ⟨stored, listed, found⟩ := List.any_eq_true.mp seen
        rw [← covering.visited] at listed
        obtain ⟨w, present, rfl⟩ := List.mem_map.mp listed
        have alike := coherent.found (leads.reachable covering.searching) (covering.reachable w present)
          (leads.eq pops.leads ▸ .inr found)
        obtain ⟨pointer', waits', target', leads', fewer, less, goal'⟩ := covering'.ahead coherent present (goal.congr coherent alike)
        exact ih _ (Prod.Lex.toLex_lt_toLex.mpr (.inl less)) explored' covering' costs' waits' leads' goal' rfl
      · have few : ([] : List (PathPtr ℚ)).length < planner.planningActions.length + 1 := Nat.succ_pos _
        have nearer := TwoList.rank_lt_of_pop pops.pop waits own (by simp) few
        rw [List.append_nil] at nearer
        exact ih (toLex (steps, _)) (Prod.Lex.toLex_lt_toLex.mpr (.inr ⟨by rfl, nearer.2⟩)) explored' covering' costs' nearer.1 (nodes ▸ leads) goal rfl
    | @expanded path machine' state pointers _ pops fresh notEnough spawned visited after =>
      have reachable := pops.leads.reachable covering.searching
      have covering' := covering.expanded resolved.measures pops notEnough spawned visited after
      have dearer := spawned.dearer vague resolved reachable
      have served : path ∈ machine.contents := (popped_contents pops.pop).mem_iff.mpr List.mem_cons_self
      have nonneg := costs path served
      have grown {other : PathPtr ℚ} : other ∈ ({ machine' with pending := machine'.pending ++ pointers } :
          TwoList (PathPtr ℚ)).contents ↔ other ∈ machine'.contents ∨ other ∈ pointers := by
        rw [TwoList.contents, ← List.append_assoc]
        exact List.mem_append
      have costs' : ∀ pointer ∈ ({ machine' with pending := machine'.pending ++ pointers } :
          TwoList (PathPtr ℚ)).contents, 0 ≤ pointer.cost := by
        intro other member
        rcases grown.mp member with old | new
        · exact costs other ((popped_contents pops.pop).mem_iff.mpr (List.mem_cons_of_mem _ old))
        · have more := dearer other new
          linarith
      by_cases own : pointer = path
      · subst own
        have begun : GoalIn planner meter steps (state, depth search.nodes pointer.id).1 := leads.eq pops.leads ▸ goal
        obtain ⟨pointer', waits', target', leads', fewer, less, goal'⟩ := covering'.ahead coherent List.mem_cons_self begun
        exact ih _ (Prod.Lex.toLex_lt_toLex.mpr (.inl less)) explored' covering' costs' waits' leads' goal' rfl
      · have above : ∀ next ∈ pointers, PrioritizedQueue.priority PathPtr.cost path <
            PrioritizedQueue.priority PathPtr.cost next := fun other member =>
          priority_lt nonneg (dearer other member)
            ((fits search' explored').contents after (grown.mpr (.inr member)))
        have few : pointers.length < planner.planningActions.length + 1 :=
          Nat.lt_succ_of_le (spawned.lines.length_eq.le.trans (children_length_le _ _ _))
        obtain ⟨waits', nearer⟩ := TwoList.rank_lt_of_pop pops.pop waits own above few
        exact ih (toLex (steps, _)) (Prod.Lex.toLex_lt_toLex.mpr (.inr ⟨by rfl, nearer⟩)) explored' covering' costs' waits'
          (leads.spawned spawned) goal rfl

/-- Where every step costs a hundredth at least, a plan is found exactly if some goal can be
reached, however many states can be. -/
theorem makePlan_finds_iff (planner : Planner ℚ) (meter : PlanningStateMeter ℚ) (initialState : State ℚ)
    (same : State ℚ → State ℚ → Prop) (coherent : Coherent planner meter initialState same)
    (vague : meter.monotonic = false) (resolved : Resolved planner meter initialState)
    (answers : ∀ state, Reachable planner initialState state → ∃ answer, meter.enough state = .ok answer)
    (notEnough : meter.enough initialState = .ok false)
    (fits : ∀ search, Explored planner meter initialState search → Fits search) (pStates : Option (List (State ℚ))) :
    (∃ fuel result, makePlan planner meter initialState [] pStates fuel = some (.ok result) ∧ result.actionsArray ≠ []) ↔
      ∃ state, Reachable planner initialState state ∧ meter.enough state = .ok true := by
  constructor
  · rintro ⟨fuel, result, ran, planned⟩
    rcases makePlan_cases ran with ⟨_, nothing⟩ | ⟨_, states, trace, known, enough, _⟩
    · exact absurd nothing planned
    · exact ⟨_, ⟨_, states, trace, known, rfl⟩, enough⟩
  · rintro ⟨_, ⟨actions, states, trace, known, rfl⟩, enough⟩
    obtain ⟨pointers, spawned, covering⟩ := start_covering (fun _ => 0) resolved.measures (by simp [notEnough])
    have dearer := spawned.dearer vague resolved .initial
    have costs : ∀ pointer ∈ (⟨[], pointers⟩ : TwoList (PathPtr ℚ)).contents, 0 ≤ pointer.cost := by
      intro pointer member
      have more := dearer pointer member
      have nothing : (FloatOps.lit 0 : ℚ) = 0 := rfl
      linarith
    obtain ⟨pointer, waits, target, leads, fewer, _, goal⟩ := covering.ahead coherent (List.mem_singleton_self (initialState, 0))
      (goalIn_of_executes trace known enough)
    exact covering.finds coherent vague resolved answers fits pStates .start costs waits leads goal

/-- Doubles the entry 0. -/
def double : PlanningAction ℚ where
  name := "double"
  validator _ := .ok 1
  executor state := .ok <| match state.find? (.scalar 0) with
    | some value => state.put (.scalar 0) (.scalar (2 * value.atInt64 0))
    | none => state

def doubler : Planner ℚ := ⟨.BreadthFirst, [double], none⟩

def twoMeter : PlanningStateMeter ℚ where
  goalState := standing 2
  monotonic := false
  distance _ := .ok 1
  enough state := .ok (state.find? (.scalar 0) == some (.scalar 2))

theorem scalar_keyMatch : StateValue.keyMatch (.scalar 0) (.scalar (0 : ℚ)) = true := by decide +kernel

theorem find?_standing (x : ℚ) : (standing x).find? (.scalar 0) = some (.scalar x) := by
  have entries : (standing x).data = [(.scalar 0, .scalar x)] := rfl
  rw [State.find?, entries, HashedList.lookup_cons, if_pos scalar_keyMatch]

theorem double_standing (x : ℚ) : double.execute (standing x) = .ok (standing (2 * x)) := by
  refine congrArg Except.ok ?_
  simp only [State.clone_eq, State.find?_setCost, find?_standing]
  exact State.ext_data (if_pos scalar_keyMatch) rfl

theorem doubler_reachable {state : State ℚ} (reachable : Reachable doubler (standing 1) state) :
    ∃ exponent : ℕ, state = standing (2 ^ exponent) := by
  apply reachable.invariant ⟨0, by norm_num⟩
  intro state next before moves
  obtain ⟨exponent, rfl⟩ := before
  obtain ⟨action, member, _, executed⟩ := moves
  cases List.mem_singleton.mp member
  refine ⟨exponent + 1, ?_⟩
  rw [double_standing, Except.ok.injEq] at executed
  rw [← executed, pow_succ']

theorem doubler_fits {search : Search ℚ} (explored : Explored doubler twoMeter (standing 1) search) : Fits search := by
  have only : search = start doubler twoMeter (standing 1) := by
    induction explored with
    | start => rfl
    | step _ ran same =>
      subst same
      have ends : (match loopStep doubler twoMeter (standing 1) (start doubler twoMeter (standing 1)) with
        | .reachedGoal _ _ => true
        | _ => false) = true := by decide +kernel
      rw [ran] at ends
      cases ends
  subst only
  intro path waits
  rcases waits with ⟨key, present, _⟩ | lazy
  · have nothing : (start doubler twoMeter (standing 1)).unvisitedPaths.queues.isEmpty = true := by decide +kernel
    rw [Std.TreeMap.isEmpty_iff_forall_not_mem] at nothing
    exact absurd present (nothing key)
  · have cheap : (start doubler twoMeter (standing 1)).unvisitedPaths.lazyArray.all (fun path => path.cost = 1) = true := by
      decide +kernel
    have price : path.cost = 1 := by simpa using List.all_eq_true.mp cheap path lazy
    norm_num [price]

theorem floatEqual_of_twice {x y : ℚ} (one : 1 ≤ x) (twice : 2 * x ≤ y) :
    BasicMath.floatEqual x y = false ∧ BasicMath.floatEqual y x = false := by
  have absolute : |x| = x ∧ |y| = y := ⟨abs_of_nonneg (by linarith), abs_of_nonneg (by linarith)⟩
  have apart : |x - y| = y - x ∧ |y - x| = y - x := ⟨by rw [abs_sub_comm, abs_of_nonneg (by linarith)], abs_of_nonneg (by linarith)⟩
  have coarse : ¬ y - x ≤ 1 / 2 ^ 23 * (x + y) * 2 := by norm_num; linarith
  have large : ¬ y - x < 1 / 2 ^ 126 := by norm_num; linarith
  have coarse' : ¬ y - x ≤ 1 / 2 ^ 23 * (y + x) * 2 := by rwa [add_comm y x]
  simp only [BasicMath.floatEqual, BasicMath.GOAP_FLT_EPSILON, BasicMath.GOAP_FLT_MIN, FloatOps.le, FloatOps.lt, FloatOps.abs,
    FloatOps.lit, id, absolute, apart, Bool.or_eq_false_iff, decide_eq_false_iff_not]
  exact ⟨⟨coarse, large⟩, coarse', large⟩

theorem floatEqual_powers {i j : ℕ} (equal : BasicMath.floatEqual ((2 : ℚ) ^ i) (2 ^ j) = true) : i = j := by
  have double {low high : ℕ} (below : low < high) : 2 * (2 : ℚ) ^ low ≤ 2 ^ high := by
    rw [← pow_succ']
    exact pow_le_pow_right₀ (by norm_num) below
  rcases Nat.lt_trichotomy i j with below | same | above
  · rw [(floatEqual_of_twice (one_le_pow₀ (by norm_num)) (double below)).1] at equal
    cases equal
  · exact same
  · rw [(floatEqual_of_twice (one_le_pow₀ (by norm_num)) (double above)).2] at equal
    cases equal

theorem doubler_coherent : Coherent doubler twoMeter (standing 1) Eq where
  refl _ _ := rfl
  trans _ _ _ one two := one.trans two
  equal state other left right equal := by
    obtain ⟨i, rfl⟩ := doubler_reachable left
    obtain ⟨j, rfl⟩ := doubler_reachable right
    have entries (x : ℚ) : (standing x).data = [(.scalar 0, .scalar x)] := rfl
    have values : (StateValue.scalar ((2 : ℚ) ^ i)).equals (.scalar (2 ^ j)) = true := by
      simpa [State.equals, entries, find?_standing] using (Bool.and_eq_true_iff.mp equal).2
    have exponents : i = j := floatEqual_powers (by simpa [StateValue.equals, StateValue.size, StateValue.scalar] using values)
    rw [exponents]
  step state other next same step := by
    subst same
    exact ⟨next, step, rfl⟩
  enough _ _ same := congrArg twoMeter.enough same

theorem makePlan_finds_iff_doubler :
    (∃ fuel result, makePlan doubler twoMeter (standing 1) [] none fuel = some (.ok result) ∧ result.actionsArray ≠ []) ↔
      ∃ state, Reachable doubler (standing 1) state ∧ twoMeter.enough state = .ok true := by
  refine makePlan_finds_iff doubler twoMeter (standing 1) Eq doubler_coherent rfl ?_ (fun _ _ => ⟨_, rfl⟩) (by decide +kernel)
    (fun _ => doubler_fits) none
  intro state next reachable moves
  obtain ⟨action, member, _, executed⟩ := moves
  obtain ⟨exponent, rfl⟩ := doubler_reachable reachable
  cases List.mem_singleton.mp member
  rw [double_standing, Except.ok.injEq] at executed
  refine ⟨1, rfl, ?_⟩
  rw [← executed]
  exact (by norm_num : (1 / 100 : ℚ) ≤ 1 * 1)

end Goap.Planner
