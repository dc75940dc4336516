import Goap.Foundation.HashedList
import Goap.Value.StateValue

namespace Goap

open FloatOps Foundation

variable {F : Type} [FloatOps F]

/-- `State`: an unordered map from keys to values, none of them null, and the
cost of the action that produced it. The entries stand in iteration order. -/
structure State (F : Type) [FloatOps F] where
  data : List (StateValue F × StateValue F)
  cost : F
  distinct : HashedList.Distinct StateValue.keyMatch data

namespace State

/-- A new state is empty and costs 1. -/
def new : State F := ⟨[], lit 1, .nil⟩

def size (state : State F) : Nat := state.data.length

/-- `at(const IStateValue::CNew &)`; `none` is the null pointer. -/
def find? (state : State F) (key : StateValue F) : Option (StateValue F) :=
  HashedList.lookup StateValue.keyMatch key state.data

/-- `cost(float)`. -/
def setCost (state : State F) (cost : F) : State F := { state with cost }

def addCost (state : State F) (cost : F) : State F := state.setCost (state.cost + cost)

def mulCost (state : State F) (cost : F) : State F := state.setCost (state.cost * cost)

def put (state : State F) (key value : StateValue F) : State F :=
  ⟨HashedList.insert StateValue.keyMatch key value state.data, state.cost, state.distinct.insert⟩

def remove (state : State F) (key : StateValue F) : State F :=
  ⟨HashedList.erase StateValue.keyMatch key state.data, state.cost, state.distinct.erase key⟩

/-- `put` of every pair in turn. -/
def putAll (state : State F) (pairs : List (StateValue F × StateValue F)) : State F :=
  pairs.foldl (fun state pair => state.put pair.1 pair.2) state

/-- `assign(const map_value2value_type &)`. -/
def assignMap (state : State F) (pairs : List (StateValue F × StateValue F)) : State F :=
  putAll ⟨[], state.cost, .nil⟩ pairs

def merge (state other : State F) : State F := state.putAll other.data

/-- `add(key, value)`; `none` when the key is absent, since the source then
dereferences the null value it has just stored. -/
def add (state : State F) (key value : StateValue F) : Option (State F) :=
  (state.find? key).map fun current => state.put key (current.add value)

/-- `mul(key, value)`. The source applies `+=` here, as `add` does. -/
def mul (state : State F) (key value : StateValue F) : Option (State F) :=
  (state.find? key).map fun current => state.put key (current.add value)

/-- Same number of entries and every entry found equal in the other state. The
cost takes no part. -/
def equals (state other : State F) : Bool :=
  state.size == other.size && state.data.all fun entry =>
    match other.find? entry.1 with
    | none => false
    | some value => entry.2.equals value

/-- `hash()` computed afresh: the cost and the entries folded by exclusive or. -/
def hash (state : State F) : UInt64 :=
  let h := state.data.foldl (fun h entry => h ^^^ entry.1.hash ^^^ entry.2.hash)
    (BasicMath.hash [state.cost])
  if h = 0 then 1 else h

/-- How the unordered containers keyed by states probe a stored state. -/
def keyMatch (probe stored : State F) : Bool :=
  probe.hash == stored.hash && probe.equals stored

/-- Entry by entry. The source may go over the copy in another order: what is called with it goes by
entries and cost. -/
def clone (state : State F) : State F := (new.setCost state.cost).putAll state.data

@[simp] theorem data_setCost (state : State F) (cost : F) : (state.setCost cost).data = state.data := rfl

@[simp] theorem cost_setCost (state : State F) (cost : F) : (state.setCost cost).cost = cost := rfl

theorem ext_data {state other : State F} (entries : state.data = other.data)
    (cost : state.cost = other.cost) : state = other := by
  cases state
  cases other
  simp only at entries cost
  subst entries cost
  rfl

@[simp] theorem cost_putAll (state : State F) (pairs : List (StateValue F × StateValue F)) :
    (state.putAll pairs).cost = state.cost := by
  induction pairs generalizing state with
  | nil => rfl
  | cons pair rest ih => exact ih (state.put pair.1 pair.2)

theorem data_putAll (state : State F) (pairs : List (StateValue F × StateValue F)) :
    (state.putAll pairs).data = pairs.foldl
      (fun table pair => HashedList.insert StateValue.keyMatch pair.1 pair.2 table) state.data := by
  induction pairs generalizing state with
  | nil => rfl
  | cons pair rest ih => exact ih (state.put pair.1 pair.2)

/-- A clone has the entries and the cost of its original. -/
@[simp] theorem clone_eq (state : State F) : state.clone = state := by
  apply ext_data
  · rw [clone, data_putAll]
    exact HashedList.insertAll state.distinct
  · simp [clone]

@[simp] theorem find?_setCost (state : State F) (cost : F) (key : StateValue F) :
    (state.setCost cost).find? key = state.find? key := rfl

@[simp] theorem equals_setCost (state other : State F) (cost : F) :
    state.equals (other.setCost cost) = state.equals other := rfl

@[simp] theorem setCost_equals (state other : State F) (cost : F) :
    (state.setCost cost).equals other = state.equals other := rfl

end State

end Goap
