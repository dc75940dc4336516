import Goap.AS3.PlanningAction

/-! `Path` of the planner in ActionScript. Paths point to their parents and come from a pool,
to which they go back when the planner has no more use for them. -/

namespace Goap.AS3

open NumberOps

/-- The fields of a `Path`. `memo` is `_initialState` with `_finalState`: they are set together. -/
structure Path (N Other : Type) [ToString Other] where
  _action : ActionRef N Other
  _parent : Option Nat
  _cost : N
  memo : Option (IWriteState N Other × IWriteState N Other)

/-- The paths that were ever made, by number, and the pools. -/
structure Heap (N Other : Type) [ToString Other] where
  paths : List (Path N Other)
  pathPool : ObjectPool Nat
  statePool : ObjectPool (IWriteState N Other)

variable {N Other : Type} [ToString Other]

namespace Path

def remembered (path : Path N Other) (initialState : IWriteState N Other) : Option (IWriteState N Other) :=
  match path.memo with
  | none => none
  | some (initial, final) => if initial.toState.equals initialState.toState then some final else none

/-- The loop `for (path = this; path != null; path = path._parent)`, leaf first. -/
def lineage : Nat → List (Path N Other) → Option Nat → List (Nat × Path N Other)
  | 0, _, _ => []
  | _, _, none => []
  | depth + 1, paths, some id =>
    match paths[id]? with
    | none => []
    | some path => (id, path) :: lineage depth paths path._parent

def getActionCount (heap : Heap N Other) (id : Nat) : Nat := (lineage heap.paths.length heap.paths (some id)).length

def getActions (heap : Heap N Other) (id : Nat) (actions : List (ActionRef N Other)) : List (ActionRef N Other) :=
  (lineage heap.paths.length heap.paths (some id)).foldl (fun actions path => path.2._action :: actions) actions

section

variable [NumberOps N]

/-- What the constructor leaves without arguments. -/
def new : Path N Other := ⟨none, none, number 0, none⟩

/-- What `dispose` leaves. -/
def disposed : Path N Other := ⟨none, none, number 1, none⟩

/-- `Path.getNew`: the number of a path from the pool or of a new one, with its fields set. -/
def getNew (heap : Heap N Other) (action : ActionRef N Other) (parent : Option Nat) (cost : N) :
    Nat × Heap N Other :=
  let (id, pathPool) := heap.pathPool.getNew heap.paths.length
  let paths := if id = heap.paths.length then heap.paths ++ [new] else heap.paths
  (id, { heap with paths := paths.set id ⟨action, parent, cost, none⟩, pathPool })

def dispose (heap : Heap N Other) (id : Nat) : Heap N Other :=
  { heap with paths := heap.paths.set id disposed, pathPool := heap.pathPool.dispose id }

/-- The getter `cost`. -/
def cost (heap : Heap N Other) (id : Nat) : N := ((heap.paths[id]?).getD new)._cost

/-- `executeFromRoot`, which asks the parents first; the depth of the calls is bounded. -/
def executeFrom : Nat → Heap N Other → Nat → IWriteState N Other → Except Error (IWriteState N Other) × Heap N Other
  | 0, heap, _, _ => (.error "Error #1023: Stack overflow occurred.", heap)
  | depth + 1, heap, id, initialState =>
    match heap.paths[id]? with
    | none => (.error nullReference, heap)
    | some path =>
      match path.remembered initialState with
      | some finalState => (.ok finalState, heap)
      | none =>
        let before : Except Error (IWriteState N Other) × Heap N Other := match path._parent with
          | none => (.ok initialState, heap)
          | some parent => executeFrom depth heap parent initialState
        match before with
        | (.error e, heap) => (.error e, heap)
        | (.ok state, heap) =>
          match path._action.execute state heap.statePool with
          | (.error e, statePool) => (.error e, { heap with statePool })
          | (.ok finalState, statePool) =>
            (.ok finalState,
              { heap with
                paths := heap.paths.set id { path with memo := some (initialState, finalState) }
                statePool })

/-- No chain of parents is longer than there are paths. -/
def executeFromRoot (heap : Heap N Other) (id : Nat) (initialState : IWriteState N Other) :
    Except Error (IWriteState N Other) × Heap N Other :=
  executeFrom heap.paths.length heap id initialState

/-- The loop of `getStates` over the paths that remain. -/
def getStatesLoop (initialState : IWriteState N Other) :
    List Nat → List (IWriteState N Other) → Heap N Other →
      Except (Thrown (List (IWriteState N Other))) (List (IWriteState N Other)) × Heap N Other
  | [], states, heap => (.ok states, heap)
  | id :: rest, states, heap =>
    match executeFromRoot heap id initialState with
    | (.error e, heap) => (.error ⟨e, states⟩, heap)
    | (.ok state, heap) => getStatesLoop initialState rest (state :: states) heap

def getStates (heap : Heap N Other) (id : Nat) (initialState : IWriteState N Other)
    (states : List (IWriteState N Other)) :
    Except (Thrown (List (IWriteState N Other))) (List (IWriteState N Other)) × Heap N Other :=
  getStatesLoop initialState ((lineage heap.paths.length heap.paths (some id)).map Prod.fst) states heap

end

end Path

noncomputable def outcome [NumberOps N] (view : View N Other) : List (ActionRef N Other) → Except Error (View N Other)
  | [] => .ok view
  | action :: before => (outcome view before).bind action.effect

section

variable [NumberOps N] {inside : IWriteState N Other → Prop}

theorem outcome_congr {view view' : View N Other} (same : view.at? = view'.at?) (action : ActionRef N Other)
    (before : List (ActionRef N Other)) : outcome view (action :: before) = outcome view' (action :: before) := by
  induction before generalizing action with
  | nil => simp only [outcome, Except.bind, ActionRef.effect, same]
  | cons earlier before ih => rw [outcome, ih, ← outcome]

/-- A memo holds what the actions make of its initial state. -/
def Remembers (inside : IWriteState N Other → Prop) (memo : Option (IWriteState N Other × IWriteState N Other))
    (actions : List (ActionRef N Other)) : Prop :=
  ∀ initial final, memo = some (initial, final) → inside initial ∧ outcome initial.view actions = .ok final.view

/-- The chain from a path to its root, with the actions along it, both leaf first. The
memos along it hold what they should. -/
inductive Line (inside : IWriteState N Other → Prop) (paths : List (Path N Other)) :
    Option Nat → List Nat → List (ActionRef N Other) → Prop where
  | root : Line inside paths none [] []
  | child {id : Nat} {path : Path N Other} (found : paths[id]? = some path) (fresh : id ∉ ids)
      (memo : Remembers inside path.memo (path._action :: actions))
      (before : Line inside paths path._parent ids actions) :
      Line inside paths (some id) (id :: ids) (path._action :: actions)

/-- Nothing but memos has changed, and these hold what they should. -/
structure Updated (inside : IWriteState N Other → Prop) (paths paths' : List (Path N Other)) : Prop where
  length : paths'.length = paths.length
  kept : ∀ (id : Nat) path, paths[id]? = some path → ∃ path', paths'[id]? = some path' ∧
    path'._action = path._action ∧ path'._parent = path._parent ∧ path'._cost = path._cost ∧
    (path'.memo = path.memo ∨
      ∀ ids actions, Line inside paths (some id) ids actions → Remembers inside path'.memo actions)

variable {paths paths' paths'' : List (Path N Other)} {start : Option Nat} {ids : List Nat}
  {actions : List (ActionRef N Other)}

namespace Line

theorem unique {ids' : List Nat} {actions' : List (ActionRef N Other)} (line : Line inside paths start ids actions)
    (other : Line inside paths start ids' actions') : ids' = ids ∧ actions' = actions := by
  induction line generalizing ids' actions' with
  | root =>
    cases other
    exact ⟨rfl, rfl⟩
  | child found _ _ _ ih =>
    cases other with
    | child found' _ _ before' =>
      have same := Option.some.inj (found.symm.trans found')
      subst same
      obtain ⟨left, right⟩ := ih before'
      exact ⟨by rw [left], by rw [right]⟩

theorem found {id : Nat} (line : Line inside paths (some id) ids actions) :
    id ∈ ids ∧ ∃ path, paths[id]? = some path := by
  cases line with
  | child found _ _ _ => exact ⟨List.mem_cons_self, _, found⟩

theorem nodup (line : Line inside paths start ids actions) : ids.Nodup := by
  induction line with
  | root => exact List.nodup_nil
  | child _ fresh _ _ ih => exact List.nodup_cons.mpr ⟨fresh, ih⟩

theorem lt_length (line : Line inside paths start ids actions) : ∀ id ∈ ids, id < paths.length := by
  induction line with
  | root => simp
  | child found _ _ _ ih => exact List.forall_mem_cons.mpr ⟨(List.getElem?_eq_some_iff.mp found).1, ih⟩

theorem length_le (line : Line inside paths start ids actions) : ids.length ≤ paths.length := by
  have within : ids ⊆ List.range paths.length := fun id member => List.mem_range.mpr (line.lt_length id member)
  simpa using (List.subperm_of_subset line.nodup within).length_le

theorem frame (line : Line inside paths start ids actions) (kept : ∀ id ∈ ids, paths'[id]? = paths[id]?) :
    Line inside paths' start ids actions := by
  induction line with
  | root => exact .root
  | child found fresh memo _ ih =>
    have rest := ih fun id member => kept id (List.mem_cons_of_mem _ member)
    exact .child ((kept _ List.mem_cons_self).trans found) fresh memo rest

theorem updated (line : Line inside paths start ids actions) (updated : Updated inside paths paths') :
    Line inside paths' start ids actions := by
  induction line with
  | root => exact .root
  | @child ids actions id path found fresh memo before ih =>
    obtain ⟨path', found', action, parent, _, memo'⟩ := updated.kept _ _ found
    rw [← parent] at ih
    have remembers : Remembers inside path'.memo (path'._action :: actions) := by
      rw [action]
      rcases memo' with same | sound
      · rwa [same]
      · exact sound _ _ (.child found fresh memo before)
    rw [← action]
    exact .child found' fresh remembers ih

theorem lineage {depth : Nat} (line : Line inside paths start ids actions) (deep : ids.length ≤ depth) :
    (Path.lineage depth paths start).map Prod.fst = ids ∧
      (Path.lineage depth paths start).map (·.2._action) = actions := by
  induction line generalizing depth with
  | root => cases depth <;> exact ⟨rfl, rfl⟩
  | child found _ _ _ ih =>
    cases depth with
    | zero => simp at deep
    | succ depth =>
      obtain ⟨left, right⟩ := ih (Nat.le_of_succ_le_succ deep)
      simp only [Path.lineage, found, List.map_cons, left, right]
      exact ⟨trivial, trivial⟩

end Line

namespace Updated

theorem refl (paths : List (Path N Other)) : Updated inside paths paths :=
  ⟨rfl, fun _ path found => ⟨path, found, rfl, rfl, rfl, .inl rfl⟩⟩

theorem trans (first : Updated inside paths paths') (second : Updated inside paths' paths'') :
    Updated inside paths paths'' := by
  refine ⟨second.length.trans first.length, ?_⟩
  intro id path found
  obtain ⟨path', found', action, parent, cost, memo⟩ := first.kept id path found
  obtain ⟨path'', found'', action', parent', cost', memo'⟩ := second.kept id path' found'
  refine ⟨path'', found'', action'.trans action, parent'.trans parent, cost'.trans cost, ?_⟩
  rcases memo' with same | sound
  · rw [same]
    exact memo
  · exact .inr fun ids actions line => sound ids actions (line.updated first)

theorem set {id : Nat} {path : Path N Other} {initialState finalState : IWriteState N Other}
    (found : paths[id]? = some path) (line : Line inside paths (some id) ids actions) (start : inside initialState)
    (result : outcome initialState.view actions = .ok finalState.view) :
    Updated inside paths (paths.set id { path with memo := some (initialState, finalState) }) := by
  refine ⟨List.length_set, ?_⟩
  intro other path' found'
  by_cases same : id = other
  · subst same
    obtain rfl := Option.some.inj (found.symm.trans found')
    have bound := (List.getElem?_eq_some_iff.mp found).1
    refine ⟨_, List.getElem?_set_self bound, rfl, rfl, rfl, .inr ?_⟩
    intro ids' actions' line' initial final stored
    cases stored
    rw [(line.unique line').2]
    exact ⟨start, result⟩
  · exact ⟨path', by rw [List.getElem?_set_ne same, found'], rfl, rfl, rfl, .inl rfl⟩

end Updated

/-- States that are equal by their hash hold the same values. -/
def Separates (inside : IWriteState N Other → Prop) : Prop :=
  ∀ state other, inside state → inside other → state.toState.equals other.toState = true →
    state.view.at? = other.view.at?

omit [NumberOps N] in
theorem Path.remembered_eq_some {path : Path N Other} {initialState finalState : IWriteState N Other}
    (found : path.remembered initialState = some finalState) :
    ∃ initial, path.memo = some (initial, finalState) ∧ initial.toState.equals initialState.toState = true := by
  unfold Path.remembered at found
  split at found
  · cases found
  · rename_i initial final stored
    split at found
    · rename_i equal
      cases found
      exact ⟨initial, stored, equal⟩
    · cases found

/-- What an execution from the root leaves: the memos of some paths and another pool of states. -/
structure Executed (inside : IWriteState N Other → Prop) (heap heap' : Heap N Other) : Prop where
  paths : Updated inside heap.paths heap'.paths
  pathPool : heap'.pathPool = heap.pathPool

theorem Executed.refl (heap : Heap N Other) : Executed inside heap heap := ⟨.refl _, rfl⟩

theorem Executed.trans {heap heap' heap'' : Heap N Other} (first : Executed inside heap heap')
    (second : Executed inside heap' heap'') : Executed inside heap heap'' :=
  ⟨first.paths.trans second.paths, second.pathPool.trans first.pathPool⟩

/-- Executing a path gives what its actions make of the state, whatever its memos and the
pools hold. -/
theorem Path.executeFrom_spec {heap : Heap N Other} {depth : Nat} {id : Nat} {initialState : IWriteState N Other}
    (separates : Separates inside) (line : Line inside heap.paths (some id) ids actions) (deep : ids.length ≤ depth)
    (reads : ∀ action ∈ actions, action.Reads) (start : inside initialState) :
    (executeFrom depth heap id initialState).1.map IWriteState.view = outcome initialState.view actions ∧
      Executed inside heap (executeFrom depth heap id initialState).2 := by
  induction depth generalizing id ids actions with
  | zero =>
    cases line
    simp at deep
  | succ depth ih =>
    cases line with
    | @child ids' actions' _ path found fresh memo before =>
      have line := Line.child found fresh memo before
      unfold executeFrom
      simp only [found]
      cases recalled : path.remembered initialState with
      | some finalState =>
        obtain ⟨initial, stored, equal⟩ := remembered_eq_some recalled
        obtain ⟨began, result⟩ := memo initial finalState stored
        refine ⟨?_, .refl _⟩
        rw [← outcome_congr (separates initial initialState began start equal), result]
        rfl
      | none =>
        simp only
        generalize ran : (match path._parent with
          | none => (.ok initialState, heap)
          | some parent => executeFrom depth heap parent initialState :
            Except Error (IWriteState N Other) × Heap N Other) = prior
        have parents : prior.1.map IWriteState.view = outcome initialState.view actions' ∧
            Executed inside heap prior.2 := by
          subst ran
          cases origin : path._parent with
          | none =>
            rw [origin] at before
            cases before
            exact ⟨rfl, .refl _⟩
          | some parent =>
            rw [origin] at before
            exact ih before (Nat.le_of_succ_le_succ deep) fun action member =>
              reads action (List.mem_cons_of_mem _ member)
        obtain ⟨answer, heap'⟩ := prior
        obtain ⟨reached, executed⟩ := parents
        simp only at reached executed
        rw [outcome, ← reached]
        cases answer with
        | error e => exact ⟨rfl, executed⟩
        | ok state =>
          have moved := ActionRef.execute_view (reads _ List.mem_cons_self) state heap'.statePool
          simp only [Except.map, Except.bind] at moved ⊢
          rw [← moved]
          generalize ended : path._action.execute state heap'.statePool = final at moved ⊢
          obtain ⟨final, statePool⟩ := final
          cases final with
          | error e => exact ⟨rfl, executed.paths, executed.pathPool⟩
          | ok finalState =>
            refine ⟨rfl, executed.paths.trans ?_, executed.pathPool⟩
            obtain ⟨path', found', action, parent, cost, _⟩ := executed.paths.kept id path found
            have result : outcome initialState.view (path._action :: actions') = .ok finalState.view := by
              rw [outcome, ← reached]
              exact moved.symm
            have shown := Updated.set found' (line.updated executed.paths) start result
            rw [action, parent, cost] at shown
            exact shown

end

end Goap.AS3
