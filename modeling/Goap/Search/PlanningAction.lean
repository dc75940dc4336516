import Goap.State.SameEntries

namespace Goap

open FloatOps

/-- What a caught exception says: its `what()`. -/
abbrev Exn := String

/-- Two outcomes that agree: related results or the same exception. -/
inductive Agree {α β : Type} (related : α → β → Prop) : Except Exn α → Except Exn β → Prop where
  | ok (same : related result result') : Agree related (.ok result) (.ok result')
  | error : Agree related (.error e) (.error e)

theorem Agree.cases {related : α → β → Prop} {left : Except Exn α} {right : Except Exn β}
    (agree : Agree related left right) :
    (∃ result result', left = .ok result ∧ right = .ok result' ∧ related result result') ∨
      ∃ e, left = .error e ∧ right = .error e := by
  cases agree with
  | ok same => exact .inl ⟨_, _, rfl, rfl, same⟩
  | error => exact .inr ⟨_, rfl, rfl⟩

theorem Agree.eq {left right : Except Exn α} (agree : Agree Eq left right) : left = right := by
  cases agree with
  | ok same => rw [same]
  | error => rfl

theorem Agree.of_eq {related : α → α → Prop} {left right : Except Exn α} (same : left = right)
    (reflexive : ∀ result, left = .ok result → related result result) : Agree related left right := by
  subst same
  cases left with
  | ok result => exact .ok (reflexive result rfl)
  | error e => exact .error

/-- `PlanningAction`: preconditions and effects over states. The executor edits
the copy it is given; both may throw. -/
structure PlanningAction (F : Type) [FloatOps F] where
  name : String
  validator : State F → Except Exn F
  executor : State F → Except Exn (State F)

/-- `IPlanningStateMeter`. -/
structure PlanningStateMeter (F : Type) [FloatOps F] where
  goalState : State F
  monotonic : Bool
  distance : State F → Except Exn F
  enough : State F → Except Exn Bool

variable {F : Type} [FloatOps F]

namespace PlanningAction

/-- The validator's float, read as a `bool`. -/
def canExecute (action : PlanningAction F) (state : State F) : Except Exn Bool :=
  (action.validator state).map fun answer => !eq answer (lit 0)

/-- The executor runs on a copy of the state that costs 1. -/
def execute (action : PlanningAction F) (state : State F) : Except Exn (State F) :=
  action.executor (state.clone.setCost (lit 1))

/-- The executor depends on nothing but the entries of the state it is given, as
far as their values are exact; the cost it is given is 1. -/
def ExecutesByEntries (values : F → Prop) (action : PlanningAction F) : Prop :=
  ∀ state other, state.Within values → State.Alike state other →
    Agree State.Alike (action.executor state) (action.executor other)

theorem ExecutesByEntries.execute {values : F → Prop} {action : PlanningAction F}
    (byEntries : action.ExecutesByEntries values) {state other : State F} (within : state.Within values)
    (same : state.SameEntries other) : Agree State.Alike (action.execute state) (action.execute other) := by
  rw [PlanningAction.execute, PlanningAction.execute, State.clone_eq, State.clone_eq]
  exact byEntries _ _ within ⟨same, rfl⟩

def raise : PlanningAction ℚ where
  name := "raise"
  validator _ := .ok 1
  executor state := .ok ((state.put (.scalar 0) (.scalar 1)).setCost 2)

theorem raise_executesByEntries : raise.ExecutesByEntries IsBit := by
  intro state other within alike
  exact .ok ⟨alike.same.put exactOn_isBit within isBit_scalar.1 _, rfl⟩

end PlanningAction

/-- Execute actions one after another. -/
def runActions : List (PlanningAction F) → State F → Except Exn (State F)
  | [], state => .ok state
  | action :: rest, state =>
    match action.execute state with
    | .error e => .error e
    | .ok next => runActions rest next

/-- The states that executing the actions one after another goes through. -/
def traceActions : List (PlanningAction F) → State F → Except Exn (List (State F))
  | [], _ => .ok []
  | action :: rest, state =>
    match action.execute state with
    | .error e => .error e
    | .ok next => (traceActions rest next).map (next :: ·)

/-- Executing the actions in order, each of them allowed where it is executed,
goes through the listed states. -/
inductive Executes : State F → List (PlanningAction F) → List (State F) → Prop where
  | nil {state : State F} : Executes state [] []
  | cons {state next : State F} {action : PlanningAction F} {actions : List (PlanningAction F)}
      {states : List (State F)} (allowed : action.canExecute state = .ok true)
      (step : action.execute state = .ok next)
      (rest : Executes next actions states) : Executes state (action :: actions) (next :: states)

def reached (state : State F) (states : List (State F)) : State F := states.getLastD state

@[simp] theorem reached_nil (state : State F) : reached state [] = state := rfl

@[simp] theorem reached_cons (state next : State F) (states : List (State F)) :
    reached state (next :: states) = reached next states :=
  List.getLastD_cons ..

@[simp] theorem reached_snoc (state next : State F) (states : List (State F)) :
    reached state (states ++ [next]) = next := by
  simp [reached]

namespace Executes

variable {state next : State F} {actions : List (PlanningAction F)} {states : List (State F)}

theorem snoc {action : PlanningAction F} (before : Executes state actions states)
    (allowed : action.canExecute (reached state states) = .ok true)
    (step : action.execute (reached state states) = .ok next) :
    Executes state (actions ++ [action]) (states ++ [next]) := by
  induction before with
  | nil => exact .cons allowed step .nil
  | cons able step' rest ih =>
    rw [reached_cons] at allowed step
    exact .cons able step' (ih allowed step)

protected theorem runActions (trace : Executes state actions states) :
    runActions actions state = .ok (reached state states) := by
  induction trace with
  | nil => rfl
  | cons able step rest ih =>
    rw [Goap.runActions, step, reached_cons]
    exact ih

protected theorem traceActions (trace : Executes state actions states) :
    traceActions actions state = .ok states := by
  induction trace with
  | nil => rfl
  | cons able step rest ih => simp [Goap.traceActions, step, ih, Except.map]

end Executes

theorem runActions_append (first second : List (PlanningAction F)) (state : State F) :
    runActions (first ++ second) state =
      match runActions first state with
      | .error e => .error e
      | .ok next => runActions second next := by
  induction first generalizing state with
  | nil => rfl
  | cons action rest ih =>
    rw [List.cons_append, runActions, runActions]
    cases action.execute state with
    | error e => rfl
    | ok next => exact ih next

@[simp] theorem runActions_singleton (action : PlanningAction F) (state : State F) :
    runActions [action] state = action.execute state := by
  unfold runActions
  cases action.execute state <;> rfl

theorem traceActions_snoc (actions : List (PlanningAction F)) (action : PlanningAction F) (state : State F) :
    traceActions (actions ++ [action]) state =
      match traceActions actions state with
      | .error e => .error e
      | .ok states => (runActions (actions ++ [action]) state).map fun last => states ++ [last] := by
  induction actions generalizing state with
  | nil =>
    simp only [List.nil_append, traceActions, runActions_singleton]
    cases action.execute state <;> rfl
  | cons first rest ih =>
    simp only [List.cons_append, traceActions, runActions]
    cases first.execute state with
    | error e => rfl
    | ok next =>
      simp only [ih next]
      cases traceActions rest next with
      | error e => rfl
      | ok states => cases runActions (rest ++ [action]) next <;> rfl

end Goap
