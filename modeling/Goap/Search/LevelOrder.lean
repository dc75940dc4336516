import Goap.Foundation.LevelOrder
import Goap.Search.Covering

namespace Goap.Planner

open FloatOps Foundation

variable {planner : Planner ℚ} {meter : PlanningStateMeter ℚ} {initialState : State ℚ} {search : Search ℚ}
  {machine : TwoList (PathPtr ℚ)} {level : Nat → Nat} {c : ℚ}

/-- Every state that the actions generate has the same product of distance and cost. -/
def Uniform (planner : Planner ℚ) (meter : PlanningStateMeter ℚ) (initialState : State ℚ) (c : ℚ) : Prop :=
  ∀ state next, Reachable planner initialState state → Step planner state next →
    ∃ distance, meter.distance next = .ok distance ∧ distance * next.cost = c

theorem Uniform.measures (uniform : Uniform planner meter initialState c) :
    Measures planner meter initialState := by
  intro state next reachable step
  obtain ⟨distance, measured, _⟩ := uniform state next reachable step
  exact ⟨distance, measured⟩

def bucketAt (c : ℚ) (depth : Nat) : Int := (PrioritizedQueue.bucketKey (c * depth)).toInt

abbrev levelOf (level : Nat → Nat) (search : Search ℚ) (pointer : PathPtr ℚ) : Nat :=
  level (depth search.nodes pointer.id)

/-- The frontier stands on two neighbouring levels, in the order that the planning
method needs, and nothing visited lies below the first of them. -/
structure Levelled (c : ℚ) (level : Nat → Nat) (planner : Planner ℚ) (meter : PlanningStateMeter ℚ)
    (initialState : State ℚ) (search : Search ℚ) (machine : TwoList (PathPtr ℚ))
    (depths : List (State ℚ × Nat)) (front : Nat) : Prop where
  covering : Covering level planner meter initialState search machine depths
  costs : ∀ pointer ∈ machine.contents, pointer.cost = c * depth search.nodes pointer.id
  ordered : machine.Ordered planner.unvisitedPathes.discipline (levelOf level search)
  band : ∀ pointer ∈ machine.contents,
    level front ≤ levelOf level search pointer ∧ levelOf level search pointer ≤ level (front + 1)
  above : ∀ v ∈ depths, level v.2 ≤ level front

/-- The popped path stands on the first level; the rest is within one level of it. -/
theorem Levelled.pop (measure : DepthMeasure level) {depths : List (State ℚ × Nat)} {front : Nat}
    (levelled : Levelled c level planner meter initialState search machine depths front)
    (follow : ∀ depths, TwoList.KeysFollow planner.unvisitedPathes.discipline (bucketAt c) level depths)
    {path : PathPtr ℚ} {machine' : TwoList (PathPtr ℚ)} (pop : planner.popped machine = (some path, machine')) :
    (∀ other ∈ machine.contents, levelOf level search path ≤ levelOf level search other) ∧
      machine'.Ordered planner.unvisitedPathes.discipline (levelOf level search) ∧
      path ∈ machine.contents ∧
      (∀ pointer ∈ machine'.contents, pointer ∈ machine.contents ∧
        levelOf level search path ≤ levelOf level search pointer ∧
        levelOf level search pointer ≤ level (depth search.nodes path.id + 1)) ∧
      ∀ v ∈ depths, level v.2 ≤ levelOf level search path := by
  have moved := popped_contents pop
  have own : path ∈ machine.contents := moved.mem_iff.mpr List.mem_cons_self
  have keys : TwoList.KeysFollow planner.unvisitedPathes.discipline
      (PrioritizedQueue.priority PathPtr.cost) (levelOf level search) machine.contents := by
    refine TwoList.KeysFollow.of_map (fun pointer : PathPtr ℚ => depth search.nodes pointer.id) (follow _) ?_
    intro pointer member
    rw [PrioritizedQueue.priority, levelled.costs pointer member, bucketAt]
  obtain ⟨lowest, ordered⟩ := levelled.ordered.pop keys pop
  have low := (levelled.band path own).1
  refine ⟨?_, ordered, own, ?_, ?_⟩
  · intro other member
    rcases List.mem_cons.mp (moved.mem_iff.mp member) with same | left
    · rw [same]
    · exact lowest other left
  · intro pointer left
    have member : pointer ∈ machine.contents := moved.mem_iff.mpr (List.mem_cons_of_mem _ left)
    exact ⟨member, lowest pointer left, (levelled.band pointer member).2.trans (measure.succ_mono low)⟩
  · exact fun v member => (levelled.above v member).trans low

theorem childCost_uniform (vague : meter.monotonic = false) (uniform : Uniform planner meter initialState c)
    {state : State ℚ} (reachable : Reachable planner initialState state) {pathCost min cost : ℚ}
    {action : PlanningAction ℚ}
    (spawn : (action, cost) ∈ children planner meter pathCost min state) : cost = pathCost + c := by
  obtain ⟨member, found⟩ := mem_children.mp spawn
  obtain ⟨allowed, next, executed⟩ := childCost_eq_some found
  obtain ⟨distance, measured, product⟩ := uniform state next reachable ⟨action, member, allowed, executed⟩
  simp only [childCost, allowed, executed, measured, pathCosts, vague, Bool.false_and, Bool.false_eq_true,
    ↓reduceIte, Option.some.injEq] at found
  rw [← found, ← product]

theorem Spawned.uniform {nodes nodes' : PathNodes ℚ} {parent : Option Nat} {pathCost min : ℚ} {state : State ℚ}
    {pointers : List (PathPtr ℚ)}
    (spawned : Spawned nodes nodes' parent (children planner meter pathCost min state) pointers)
    (vague : meter.monotonic = false) (uniform : Uniform planner meter initialState c)
    (reachable : Reachable planner initialState state)
    (costs : pathCost = c * (Path.parentActions nodes parent).length) :
    ∀ pointer ∈ pointers, depth nodes' pointer.id = (Path.parentActions nodes parent).length + 1 ∧
      pointer.cost = c * depth nodes' pointer.id := by
  intro pointer member
  obtain ⟨⟨action, cost⟩, spawn, _, same, line⟩ := exists_right_of_forall₂ spawned.lines member
  have deep : depth nodes' pointer.id = (Path.parentActions nodes parent).length + 1 := by
    rw [depth, line, List.length_append]
    rfl
  refine ⟨deep, ?_⟩
  rw [same, childCost_uniform vague uniform reachable spawn, costs, deep]
  push_cast
  ring

theorem start_levelled (measure : DepthMeasure level) (vague : meter.monotonic = false)
    (uniform : Uniform planner meter initialState c) (notEnough : meter.enough initialState ≠ .ok true) :
    ∃ machine depths, Levelled c level planner meter initialState (start planner meter initialState) machine
      depths 0 := by
  obtain ⟨pointers, spawned, covering⟩ := start_covering level uniform.measures notEnough
  have fresh := spawned.uniform vague uniform .initial (by simp [Path.parentActions, FloatOps.lit])
  have levels : ∀ pointer ∈ pointers, levelOf level (start planner meter initialState) pointer = level 1 :=
    fun pointer member => congrArg level (fresh pointer member).1
  have empty : TwoList.new.Ordered planner.unvisitedPathes.discipline
      (levelOf level (start planner meter initialState)) := by
    cases planner.unvisitedPathes.discipline with
    | oldest => exact .nil
    | newest => exact .inl rfl
  refine ⟨⟨[], pointers⟩, _, covering, fun pointer member => (fresh pointer member).2, ?_, ?_, ?_⟩
  · exact empty.spawn (fun _ member => by cases member) levels
  · intro pointer member
    rw [levels pointer member]
    exact ⟨measure.mono (Nat.zero_le 1), Nat.le_refl _⟩
  · intro v member
    rw [List.mem_singleton.mp member]

theorem Levelled.rejected (measure : DepthMeasure level) {depths : List (State ℚ × Nat)} {front : Nat}
    (levelled : Levelled c level planner meter initialState search machine depths front)
    (follow : ∀ depths, TwoList.KeysFollow planner.unvisitedPathes.discipline (bucketAt c) level depths)
    {path : PathPtr ℚ} {machine' : TwoList (PathPtr ℚ)} {state : State ℚ} {search' : Search ℚ}
    (pops : Pops planner initialState search machine path machine' state)
    (seen : search.visitedStates.any (State.keyMatch state) = true) (nodes : search'.nodes = search.nodes)
    (visited : search'.visitedStates = search.visitedStates)
    (after : Searching planner initialState search' machine') :
    Levelled c level planner meter initialState search' machine' depths (depth search.nodes path.id) := by
  obtain ⟨_, ordered, _, rest, shallow⟩ := levelled.pop measure follow pops.pop
  have same : levelOf level search' = levelOf level search := by
    unfold levelOf
    rw [nodes]
  refine ⟨levelled.covering.rejected pops shallow seen nodes visited after, ?_, same ▸ ordered, ?_, shallow⟩
  · intro pointer left
    rw [nodes]
    exact levelled.costs pointer (rest pointer left).1
  · intro pointer left
    rw [same]
    exact (rest pointer left).2

theorem Levelled.expanded (measure : DepthMeasure level) (vague : meter.monotonic = false)
    (uniform : Uniform planner meter initialState c) {depths : List (State ℚ × Nat)} {front : Nat}
    (levelled : Levelled c level planner meter initialState search machine depths front)
    (follow : ∀ depths, TwoList.KeysFollow planner.unvisitedPathes.discipline (bucketAt c) level depths)
    {path : PathPtr ℚ} {machine' : TwoList (PathPtr ℚ)} {state : State ℚ} {search' : Search ℚ}
    {pointers : List (PathPtr ℚ)} (pops : Pops planner initialState search machine path machine' state)
    (notEnough : meter.enough state = .ok false)
    (spawned : Spawned search.nodes search'.nodes (some path.id)
      (children planner meter path.cost search.minDistance state) pointers)
    (visited : search'.visitedStates = state :: search.visitedStates)
    (after : Searching planner initialState search' { machine' with pending := machine'.pending ++ pointers }) :
    Levelled c level planner meter initialState search' { machine' with pending := machine'.pending ++ pointers }
      ((state, depth search.nodes path.id) :: depths) (depth search.nodes path.id) := by
  obtain ⟨_, ordered, own, rest, shallow⟩ := levelled.pop measure follow pops.pop
  have reachable := pops.leads.reachable levelled.covering.searching
  have fresh := spawned.uniform vague uniform reachable (levelled.costs path own)
  have kept : ∀ pointer ∈ machine'.contents, depth search'.nodes pointer.id = depth search.nodes pointer.id := by
    intro pointer left
    rw [depth, spawned.kept _ (levelled.covering.searching.bounded pointer (rest pointer left).1), depth]
  have keptLevel : ∀ pointer ∈ machine'.contents, levelOf level search' pointer = levelOf level search pointer :=
    fun pointer left => congrArg level (kept pointer left)
  have freshLevel : ∀ pointer ∈ pointers,
      levelOf level search' pointer = level (depth search.nodes path.id + 1) :=
    fun pointer member => congrArg level (fresh pointer member).1
  have down : levelOf level search path ≤ level (depth search.nodes path.id + 1) := measure.mono (Nat.le_succ _)
  have split : ∀ {pointer}, pointer ∈ ({ machine' with pending := machine'.pending ++ pointers } :
      TwoList (PathPtr ℚ)).contents → pointer ∈ machine'.contents ∨ pointer ∈ pointers := by
    intro pointer member
    rw [TwoList.contents, ← List.append_assoc] at member
    exact List.mem_append.mp member
  refine ⟨levelled.covering.expanded uniform.measures pops notEnough spawned visited after, ?_, ?_, ?_, ?_⟩
  · intro pointer member
    rcases split member with left | new
    · rw [kept pointer left]
      exact levelled.costs pointer (rest pointer left).1
    · exact (fresh pointer new).2
  · apply (ordered.congr keptLevel).spawn _ freshLevel
    intro pointer left
    rw [keptLevel pointer left]
    exact (rest pointer left).2.2
  · intro pointer member
    rcases split member with left | new
    · rw [keptLevel pointer left]
      exact (rest pointer left).2
    · rw [freshLevel pointer new]
      exact ⟨down, Nat.le_refl _⟩
  · exact List.forall_mem_cons.mpr ⟨Nat.le_refl _, shallow⟩

/-- The frontier is served level by level in every iteration. -/
theorem Explored.levelled (measure : DepthMeasure level) (vague : meter.monotonic = false)
    (uniform : Uniform planner meter initialState c) (notEnough : meter.enough initialState ≠ .ok true)
    (follow : ∀ depths, TwoList.KeysFollow planner.unvisitedPathes.discipline (bucketAt c) level depths)
    (explored : Explored planner meter initialState search) :
    ∃ machine depths front, Levelled c level planner meter initialState search machine depths front := by
  induction explored with
  | start =>
    obtain ⟨machine, depths, levelled⟩ := start_levelled measure vague uniform notEnough
    exact ⟨machine, depths, 0, levelled⟩
  | step _ ran ih =>
    obtain ⟨machine, depths, front, levelled⟩ := ih
    have iteration := levelled.covering.searching.iteration meter
    rw [ran] at iteration
    cases iteration with
    | rejected pops seen nodes visited after =>
      exact ⟨_, _, _, levelled.rejected measure follow pops seen nodes visited after⟩
    | expanded pops _ notEnough spawned visited after =>
      exact ⟨_, _, _, levelled.expanded measure vague uniform follow pops notEnough spawned visited after⟩

/-- Level by level, the path found is at the least level of all sequences that
lead to a goal. -/
theorem level_le_of_makePlan {same : State ℚ → State ℚ → Prop} (measure : DepthMeasure level)
    (vague : meter.monotonic = false) (uniform : Uniform planner meter initialState c)
    (coherent : Coherent planner meter initialState same) (notEnough : meter.enough initialState ≠ .ok true)
    (follow : ∀ depths, TwoList.KeysFollow planner.unvisitedPathes.discipline (bucketAt c) level depths)
    {pStates : Option (List (State ℚ))} {fuel : Nat} {result : PlanResult ℚ}
    (ran : makePlan planner meter initialState [] pStates fuel = some (.ok result))
    (planned : result.actionsArray ≠ []) {actions : List (PlanningAction ℚ)} {states : List (State ℚ)}
    (trace : Executes initialState actions states) (known : ∀ action ∈ actions, action ∈ planner.planningActions)
    (enough : meter.enough (reached initialState states) = .ok true) :
    level result.actionsArray.length ≤ level actions.length := by
  obtain ⟨last, explored, ending⟩ := mainLoop_cases .start ran
  rcases ending with ⟨_, _, own⟩ | ⟨path, search', status, reported⟩
  · rw [own] at planned
    exact absurd rfl planned
  · obtain ⟨machine, depths, front, levelled⟩ := explored.levelled measure vague uniform notEnough follow
    have iteration := levelled.covering.searching.iteration meter
    rw [status] at iteration
    cases iteration with
    | reachedGoal pops _ _ nodes after =>
      obtain ⟨_, _, found, _⟩ := pops.leads
      rw [← nodes] at found
      obtain ⟨result', reported', array, _⟩ := after.reportGoal found pStates
      cases reported'.symm.trans reported
      rw [array, nodes]
      obtain ⟨pointer, waiting, bound⟩ := levelled.covering.cuts coherent measure trace known enough
      exact ((levelled.pop measure follow pops.pop).1 pointer waiting).trans bound

end Goap.Planner
