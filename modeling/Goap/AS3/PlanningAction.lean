import Goap.AS3.State
import Mathlib.Algebra.Order.Field.Rat
import Mathlib.Logic.Function.Basic

namespace Goap.AS3

/-- The message of an `Error`. -/
abbrev Error := String

/-- What a call on null throws. -/
def nullReference : Error := "Error #1009: Cannot access a property or method of a null object reference."

/-- An error, with what the call leaves behind that throws it. -/
structure Thrown (Left : Type) where
  error : Error
  left : Left

/-- What the planner asks of `Number`. Rounding and NaN belong to the instance; no law is assumed. -/
class NumberOps (N : Type) extends Add N, Sub N, Mul N, Div N where
  number : ℚ → N
  abs : N → N
  max : N → N → N
  lt : N → N → Bool
  eq : N → N → Bool
  /-- Where an `int` is expected: truncated, of which the last 32 bits count. -/
  toInt : N → Int32

instance : NumberOps ℚ where
  number := id
  abs value := |value|
  max first second := if first < second then second else first
  lt first second := decide (first < second)
  eq first second := decide (first = second)
  toInt value := Int32.ofInt (value.num.tdiv value.den)

open NumberOps

/-- `ObjectPool`: the objects that were given back, the last one first. -/
structure ObjectPool (T : Type) where
  _objects : List T

namespace ObjectPool

variable {T : Type}

def POOL_SIZE : Nat := 4096

def new : ObjectPool T := ⟨[]⟩

/-- `getNew`, with what the constructor makes. -/
def getNew (pool : ObjectPool T) (construct : T) : T × ObjectPool T :=
  match pool._objects with
  | [] => (construct, pool)
  | object :: rest => (object, ⟨rest⟩)

/-- `dispose`; beyond `POOL_SIZE` the object is left to the garbage collector. -/
def dispose (pool : ObjectPool T) (oldObject : T) : ObjectPool T :=
  if pool._objects.length < POOL_SIZE then ⟨oldObject :: pool._objects⟩ else pool

theorem mem_dispose {pool : ObjectPool T} {oldObject object : T}
    (member : object ∈ (pool.dispose oldObject)._objects) : object = oldObject ∨ object ∈ pool._objects := by
  unfold dispose at member
  split at member
  · exact List.mem_cons.mp member
  · exact .inr member

theorem nodup_dispose {pool : ObjectPool T} {oldObject : T} (distinct : pool._objects.Nodup)
    (out : oldObject ∉ pool._objects) : (pool.dispose oldObject)._objects.Nodup := by
  unfold dispose
  split
  · exact List.nodup_cons.mpr ⟨out, distinct⟩
  · exact distinct

end ObjectPool

/-- A state with its cost, which is no part of what the state holds. -/
structure IWriteState (N Other : Type) [ToString Other] where
  toState : State Other
  cost : N

/-- What can be read of a state: its values by name and its cost. -/
structure View (N Other : Type) where
  at? : String → Option (Value Other)
  cost : N

variable {N Other : Type} [NumberOps N] [ToString Other]

namespace IWriteState

def new : IWriteState N Other := ⟨State.new, number 1⟩

/-- `clone`: a state from the pool takes the values over and costs 1. -/
def clone (this : IWriteState N Other) (pool : ObjectPool (IWriteState N Other)) :
    IWriteState N Other × ObjectPool (IWriteState N Other) :=
  let (pooled, pool) := pool.getNew new
  (⟨this.toState.clone pooled.toState, number 1⟩, pool)

def view (this : IWriteState N Other) : View N Other := ⟨this.toState.at?, this.cost⟩

theorem view_clone (this : IWriteState N Other) (pool : ObjectPool (IWriteState N Other)) :
    (this.clone pool).1.view = ⟨this.view.at?, number 1⟩ := by
  simp only [view, clone, State.at?_clone]

omit [NumberOps N] in
theorem equals_of_at? {this other : IWriteState N Other} (same : this.view.at? = other.view.at?) :
    this.toState.equals other.toState = true := by
  rw [State.equals, State.hash_eq, State.hash_eq, beq_iff_eq]
  exact hashObject_of_bytes (bytes_congr same .new .new)

end IWriteState

/-- Preconditions and effects: the executor changes the state that it is given. -/
structure PlanningAction (N Other : Type) [ToString Other] where
  name : String
  validator : IWriteState N Other → Except Error Bool
  executor : IWriteState N Other → Except Error (IWriteState N Other)

/-- An element of a vector of actions; `none` is null. -/
abbrev ActionRef (N Other : Type) [ToString Other] := Option (PlanningAction N Other)

/-- `IPlanningStateMeter`. -/
structure PlanningStateMeter (N Other : Type) [ToString Other] where
  goalState : IWriteState N Other
  monotonic : Bool
  distance : IWriteState N Other → Except Error N
  enough : IWriteState N Other → Except Error Bool

/-- A function of states as a function of what can be read of them. -/
noncomputable def onView {A : Type} (answer : IWriteState N Other → Except Error A) : View N Other → Except Error A :=
  Function.extend IWriteState.view answer fun _ => .error nullReference

omit [NumberOps N] in
theorem onView_view {A : Type} {answer : IWriteState N Other → Except Error A}
    (reads : answer.FactorsThrough IWriteState.view) (state : IWriteState N Other) :
    onView answer state.view = answer state :=
  reads.extend_apply _ state

omit [NumberOps N] in
/-- Only what can be read of some state is answered for. -/
theorem exists_of_onView {A : Type} {answer : IWriteState N Other → Except Error A} {view : View N Other} {a : A}
    (answered : onView answer view = .ok a) : ∃ state : IWriteState N Other, state.view = view := by
  by_contra none
  rw [onView, Function.extend_apply' _ _ _ none] at answered
  cases answered

namespace ActionRef

def canExecute (action : ActionRef N Other) (state : IWriteState N Other) : Except Error Bool :=
  match action with
  | none => .error nullReference
  | some action => action.validator state

def change (action : ActionRef N Other) (state : IWriteState N Other) : Except Error (IWriteState N Other) :=
  match action with
  | none => .error nullReference
  | some action => action.executor state

/-- `execute`, with the pool of states before and after. -/
def execute (action : ActionRef N Other) (state : IWriteState N Other) (pool : ObjectPool (IWriteState N Other)) :
    Except Error (IWriteState N Other) × ObjectPool (IWriteState N Other) :=
  match action with
  | none => (.error nullReference, pool)
  | some _ =>
    let (newState, pool) := state.clone pool
    (action.change newState, pool)

/-- The action goes by what can be read of a state, and by nothing else. -/
structure Reads (action : ActionRef N Other) : Prop where
  canExecute : action.canExecute.FactorsThrough IWriteState.view
  change : Function.FactorsThrough (fun state => (action.change state).map IWriteState.view) IWriteState.view

noncomputable def allowed (action : ActionRef N Other) : View N Other → Except Error Bool := onView action.canExecute

noncomputable def effect (action : ActionRef N Other) (view : View N Other) : Except Error (View N Other) :=
  onView (fun state => (action.change state).map IWriteState.view) ⟨view.at?, number 1⟩

theorem execute_view {action : ActionRef N Other} (reads : action.Reads) (state : IWriteState N Other)
    (pool : ObjectPool (IWriteState N Other)) :
    (action.execute state pool).1.map IWriteState.view = action.effect state.view := by
  have clones := onView_view reads.change (state.clone pool).1
  rw [IWriteState.view_clone] at clones
  rw [effect, clones]
  cases action <;> rfl

end ActionRef

def floorOf (state : IWriteState ℚ ℕ) : ℕ :=
  match state.toState.at? "floor" with
  | some (.other floor) => floor
  | _ => 0

def rise (top floors : ℕ) : ActionRef ℚ ℕ := some
  { name := "rise"
    validator := fun state => .ok (decide (floorOf state + floors ≤ top))
    executor := fun state => .ok ⟨state.toState.put "floor" (some (.other (floorOf state + floors))), state.cost⟩ }

def onFloor (floor : ℕ) : IWriteState ℚ ℕ := ⟨State.new.put "floor" (some (.other floor)), 1⟩

theorem floorOf_congr {state other : IWriteState ℚ ℕ} (same : state.view = other.view) : floorOf state = floorOf other := by
  have read : state.toState.at? = other.toState.at? := congrArg View.at? same
  simp only [floorOf, read]

@[simp] theorem floorOf_onFloor (floor : ℕ) : floorOf (onFloor floor) = floor := by
  simp [floorOf, onFloor, State.at?_put]

theorem rise_reads (top floors : ℕ) : (rise top floors).Reads where
  canExecute state other same := by simp only [rise, ActionRef.canExecute, floorOf_congr same]
  change state other same := by
    have read : state.toState.at? = other.toState.at? := congrArg View.at? same
    have cost : state.cost = other.cost := congrArg View.cost same
    have put : ∀ value, (state.toState.put "floor" value).at? = (other.toState.put "floor" value).at? := by
      intro value
      funext key
      rw [State.at?_put, State.at?_put, read]
    simp only [rise, ActionRef.change, Except.map, IWriteState.view, floorOf_congr same, put, cost]

theorem allowed_rise (top floors floor : ℕ) :
    (rise top floors).allowed (onFloor floor).view = .ok (decide (floor + floors ≤ top)) := by
  rw [ActionRef.allowed, onView_view (rise_reads top floors).canExecute]
  simp [ActionRef.canExecute, rise]

theorem effect_rise (top floors floor : ℕ) :
    (rise top floors).effect (onFloor floor).view = .ok (onFloor (floor + floors)).view := by
  have start : (onFloor floor).view = ⟨(onFloor floor).view.at?, NumberOps.number 1⟩ := rfl
  rw [ActionRef.effect, ← start, onView_view (rise_reads top floors).change]
  simp only [rise, ActionRef.change, Except.map, floorOf_onFloor]
  simp only [Except.ok.injEq, IWriteState.view, onFloor, View.mk.injEq]
  refine ⟨?_, trivial⟩
  funext key
  by_cases own : key = "floor" <;> simp [State.at?_put, own]

end Goap.AS3
