import Goap.AS3.PlanningAction

namespace Goap.AS3

open NumberOps

variable {N Other : Type} [ToString Other] [NumberOps N]

namespace Planner

/-- The loop: the state reached and the cost accumulated, which is none when an exception has
ended it. -/
def executeLoop : List (ActionRef N Other) → IWriteState N Other → N → ObjectPool (IWriteState N Other) →
    (IWriteState N Other × Option N) × ObjectPool (IWriteState N Other)
  | [], reachedByPath, accCost, pool => ((reachedByPath, some accCost), pool)
  | action :: rest, reachedByPath, accCost, pool =>
    match action.canExecute reachedByPath with
    | .error _ => ((reachedByPath, none), pool)
    | .ok false => ((reachedByPath, some accCost), pool)
    | .ok true =>
      match action.execute reachedByPath pool with
      | (.error _, pool) => ((reachedByPath, none), pool)
      | (.ok nextState, pool) => executeLoop rest nextState (accCost + nextState.cost) (pool.dispose reachedByPath)

def executeActions (actions : List (ActionRef N Other)) (initialState : IWriteState N Other)
    (pool : ObjectPool (IWriteState N Other)) : IWriteState N Other × ObjectPool (IWriteState N Other) :=
  let (initial, pool) := initialState.clone pool
  let initial := { initial with cost := initialState.cost }
  match executeLoop actions initial initial.cost pool with
  | ((reachedByPath, none), pool) => (reachedByPath, pool)
  | ((reachedByPath, some accCost), pool) => ({ reachedByPath with cost := accCost }, pool)

/-- The actions can be executed one after the other; the views are those after each of them. -/
inductive Executes : View N Other → List (ActionRef N Other) → List (View N Other) → Prop where
  | nil {view : View N Other} : Executes view [] []
  | cons {view next : View N Other} {action : ActionRef N Other} {actions : List (ActionRef N Other)}
      {views : List (View N Other)} (allowed : action.allowed view = .ok true) (effect : action.effect view = .ok next)
      (rest : Executes next actions views) : Executes view (action :: actions) (next :: views)

theorem Executes.last {view : View N Other} {actions : List (ActionRef N Other)} {views : List (View N Other)}
    (executes : Executes view actions views) : (view :: views)[actions.length]? = some (views.getLastD view) := by
  induction executes with
  | nil => rfl
  | cons _ _ _ ih => rw [List.length_cons, List.getElem?_cons_succ, ih, List.getLastD_cons]

/-- The next action, if there is one, is not allowed or throws. -/
def Halts (view : View N Other) : List (ActionRef N Other) → Prop
  | [] => True
  | action :: _ => ∀ next, action.allowed view = .ok true → action.effect view ≠ .ok next

/-- The next action throws. -/
def Throws (view : View N Other) : List (ActionRef N Other) → Prop
  | [] => False
  | action :: _ => (∃ e, action.allowed view = .error e) ∨
      action.allowed view = .ok true ∧ ∃ e, action.effect view = .error e

/-- The cost accumulated along some views, by the order of the additions. -/
def accumulate (accCost : N) (views : List (View N Other)) : N :=
  views.foldl (fun accCost view => accCost + view.cost) accCost

/-- The loop executes the longest part of the actions that can be executed. -/
theorem executeLoop_spec {actions : List (ActionRef N Other)} (reads : ∀ action ∈ actions, action.Reads)
    (state : IWriteState N Other) (accCost : N) (pool : ObjectPool (IWriteState N Other)) :
    ∃ done rest views, actions = done ++ rest ∧ Executes state.view done views ∧
      Halts (views.getLastD state.view) rest ∧
      (executeLoop actions state accCost pool).1.1.view = views.getLastD state.view ∧
      (Throws (views.getLastD state.view) rest → (executeLoop actions state accCost pool).1.2 = none) ∧
      (¬ Throws (views.getLastD state.view) rest →
        (executeLoop actions state accCost pool).1.2 = some (accumulate accCost views)) := by
  induction actions generalizing state accCost pool with
  | nil => exact ⟨[], [], [], rfl, .nil, trivial, rfl, False.elim, fun _ => rfl⟩
  | cons action rest ih =>
    obtain ⟨first, others⟩ := List.forall_mem_cons.mp reads
    have allowed : action.allowed state.view = action.canExecute state := onView_view first.canExecute state
    have effect := ActionRef.execute_view first state pool
    unfold executeLoop
    cases asked : action.canExecute state with
    | error e =>
      rw [asked] at allowed
      refine ⟨[], action :: rest, [], rfl, .nil, ?_, rfl, fun _ => rfl, fun calm => absurd (.inl ⟨e, allowed⟩) calm⟩
      intro next permitted
      cases allowed.symm.trans permitted
    | ok answer =>
      rw [asked] at allowed
      cases answer with
      | false =>
        refine ⟨[], action :: rest, [], rfl, .nil, ?_, rfl, ?_, fun _ => rfl⟩
        · intro next permitted
          cases allowed.symm.trans permitted
        · intro throws
          rcases throws with ⟨e, failed⟩ | ⟨permitted, _⟩
          · cases allowed.symm.trans failed
          · cases allowed.symm.trans permitted
      | true =>
        generalize action.execute state pool = ran at effect ⊢
        obtain ⟨next, pool'⟩ := ran
        cases next with
        | error e =>
          refine ⟨[], action :: rest, [], rfl, .nil, ?_, rfl, fun _ => rfl,
            fun calm => absurd (.inr ⟨allowed, e, effect.symm⟩) calm⟩
          intro next _ moved
          cases effect.trans moved
        | ok nextState =>
          obtain ⟨done, left, views, split, trace, halts, reached, thrown, calm⟩ :=
            ih others nextState (accCost + nextState.cost) (pool'.dispose state)
          have last : (nextState.view :: views).getLastD state.view = views.getLastD nextState.view :=
            List.getLastD_cons ..
          refine ⟨action :: done, left, nextState.view :: views, by rw [split, List.cons_append],
            .cons allowed effect.symm trace, ?_, ?_, ?_, ?_⟩
          · rwa [last]
          · rwa [last]
          · rwa [last]
          · rw [last]
            exact calm

theorem view_begun (initialState : IWriteState N Other) (pool : ObjectPool (IWriteState N Other)) :
    ({ (initialState.clone pool).1 with cost := initialState.cost } : IWriteState N Other).view = initialState.view := by
  have cloned := initialState.view_clone pool
  simp only [IWriteState.view, View.mk.injEq] at cloned ⊢
  exact ⟨cloned.1, trivial⟩

/-- The values of the state returned are those reached by the loop. -/
theorem at?_executeActions (actions : List (ActionRef N Other)) (initialState : IWriteState N Other)
    (pool : ObjectPool (IWriteState N Other)) : (executeActions actions initialState pool).1.view.at? =
      (executeLoop actions { (initialState.clone pool).1 with cost := initialState.cost } initialState.cost
        (initialState.clone pool).2).1.1.view.at? := by
  unfold executeActions
  dsimp only
  generalize executeLoop actions _ _ _ = ran
  obtain ⟨⟨state, accCost⟩, pool'⟩ := ran
  cases accCost <;> rfl

theorem executed_prefix {actions : List (ActionRef N Other)} (reads : ∀ action ∈ actions, action.Reads)
    (initialState : IWriteState N Other) (pool : ObjectPool (IWriteState N Other)) :
    ∃ done rest views, actions = done ++ rest ∧ Executes initialState.view done views ∧
      (executeActions actions initialState pool).1.view.at? = (views.getLastD initialState.view).at? := by
  obtain ⟨done, rest, views, split, trace, _, reached, _⟩ :=
    executeLoop_spec reads { (initialState.clone pool).1 with cost := initialState.cost } initialState.cost
      (initialState.clone pool).2
  rw [view_begun] at trace reached
  exact ⟨done, rest, views, split, trace, (at?_executeActions ..).trans (congrArg View.at? reached)⟩

/-- `executeActions` stops before the first action that is not allowed or throws, whatever the
pool holds. The state reached costs as much as all the states on the way, the initial one
included, but after an exception only what it costs itself. -/
theorem executeActions_longest {actions : List (ActionRef N Other)} (reads : ∀ action ∈ actions, action.Reads)
    (initialState : IWriteState N Other) (pool : ObjectPool (IWriteState N Other)) :
    ∃ done rest views, actions = done ++ rest ∧ Executes initialState.view done views ∧
      Halts (views.getLastD initialState.view) rest ∧
      (executeActions actions initialState pool).1.view.at? = (views.getLastD initialState.view).at? ∧
      (Throws (views.getLastD initialState.view) rest →
        (executeActions actions initialState pool).1.cost = (views.getLastD initialState.view).cost) ∧
      (¬ Throws (views.getLastD initialState.view) rest →
        (executeActions actions initialState pool).1.cost = accumulate initialState.cost views) := by
  obtain ⟨done, rest, views, split, trace, halts, reached, thrown, calm⟩ :=
    executeLoop_spec reads { (initialState.clone pool).1 with cost := initialState.cost } initialState.cost
      (initialState.clone pool).2
  rw [view_begun] at trace halts reached thrown calm
  refine ⟨done, rest, views, split, trace, halts, (at?_executeActions ..).trans (congrArg View.at? reached), ?_⟩
  unfold executeActions
  dsimp only
  generalize executeLoop actions { (initialState.clone pool).1 with cost := initialState.cost } initialState.cost
    (initialState.clone pool).2 = ran at reached thrown calm ⊢
  obtain ⟨⟨state, accCost⟩, pool'⟩ := ran
  by_cases throws : Throws (views.getLastD initialState.view) rest
  · have none := thrown throws
    simp only at none reached
    subst none
    exact ⟨fun _ => by rw [← reached]; rfl, fun other => absurd throws other⟩
  · have total := calm throws
    simp only at total reached
    subst total
    exact ⟨fun other => absurd other throws, fun _ => rfl⟩

theorem executeActions_lift :
    ∃ done rest views, [rise 3 1, rise 3 2, rise 3 1] = done ++ rest ∧ Executes (onFloor 0).view done views ∧
      (executeActions [rise 3 1, rise 3 2, rise 3 1] (onFloor 0) .new).1.view.at? =
        (views.getLastD (onFloor 0).view).at? := by
  have reads : ∀ action ∈ [rise 3 1, rise 3 2, rise 3 1], action.Reads := by
    simp [rise_reads]
  obtain ⟨done, rest, views, split, trace, _, reached, _⟩ := executeActions_longest reads (onFloor 0) .new
  exact ⟨done, rest, views, split, trace, reached⟩

end Planner

end Goap.AS3
