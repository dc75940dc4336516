import Goap.State.CachedState

/-! States whose values are cells of a store, as the smart pointers of `State` make
them: what an executor can reach of the state that its action is executed on. -/

namespace Goap

open FloatOps Foundation

variable {F : Type} [FloatOps F]

/-- The static `nullValue` of `at(int64_t)`. -/
def nullValue : Nat := 0

/-- The static `nullValue` of `atRef`. -/
def nullValueRef : Nat := 1

/-- The value objects of a program by address. The two statics are there from the start. -/
structure CellStore (F : Type) where
  cells : Nat → StateValue F
  fresh : Nat
  statics : nullValue < fresh ∧ nullValueRef < fresh

/-- A `State`: its entries are the addresses of a key and of a value. -/
structure StoredState (F : Type) where
  data : List (Nat × Nat)
  cost : F
  cachedHash : UInt64

namespace CellStore

def set (store : CellStore F) (address : Nat) (value : StateValue F) : CellStore F :=
  { store with cells := Function.update store.cells address value }

/-- A new value object, with its address. -/
def alloc (store : CellStore F) (value : StateValue F) : Nat × CellStore F :=
  (store.fresh,
    { cells := Function.update store.cells store.fresh value
      fresh := store.fresh + 1
      statics := ⟨Nat.lt_succ_of_lt store.statics.1, Nat.lt_succ_of_lt store.statics.2⟩ })

def read (store : CellStore F) : Nat × Nat → StateValue F × StateValue F := Prod.map store.cells store.cells

/-- How `_data` probes a key by the values at both addresses. -/
def fits (store : CellStore F) (probe stored : Nat) : Bool :=
  StateValue.keyMatch (store.cells probe) (store.cells stored)

end CellStore

namespace StoredState

def addresses (state : StoredState F) : List Nat := state.data.flatMap fun entry => [entry.1, entry.2]

def Allocated (store : CellStore F) (state : StoredState F) : Prop :=
  ∀ address ∈ state.addresses, address < store.fresh

def entries (state : StoredState F) (store : CellStore F) : List (StateValue F × StateValue F) :=
  state.data.map store.read

def hash (state : StoredState F) (store : CellStore F) : UInt64 :=
  if state.cachedHash = 0 then
    let h := (state.entries store).foldl (fun h entry => h ^^^ entry.1.hash ^^^ entry.2.hash)
      (BasicMath.hash [state.cost])
    if h = 0 then 1 else h
  else state.cachedHash

def reading (state : StoredState F) (store : CellStore F) : List (StateValue F × StateValue F) × F × UInt64 :=
  (state.entries store, state.cost, state.hash store)

/-- `State()`. -/
def new : StoredState F := ⟨[], lit 1, 0⟩

def put (store : CellStore F) (state : StoredState F) (key value : Nat) : StoredState F :=
  { state with data := HashedList.insert store.fits key value state.data, cachedHash := 0 }

def remove (store : CellStore F) (state : StoredState F) (key : Nat) : StoredState F :=
  { state with data := HashedList.erase store.fits key state.data, cachedHash := 0 }

/-- `at(const IStateValue::CNew &)`; `none` is the null pointer. -/
def find? (store : CellStore F) (state : StoredState F) (key : Nat) : Option Nat :=
  HashedList.lookup store.fits key state.data

/-- `put` of every pair in turn. -/
def putAll (store : CellStore F) (state : StoredState F) (pairs : List (Nat × Nat)) : StoredState F :=
  pairs.foldl (fun state pair => put store state pair.1 pair.2) state

def setCost (state : StoredState F) (cost : F) : StoredState F := { state with cost, cachedHash := 0 }

/-- The loop of `clone()`: keys are shared and values cloned. -/
def cloneLoop : List (Nat × Nat) → CellStore F → StoredState F → CellStore F × StoredState F
  | [], store, ptr => (store, ptr)
  | pair :: rest, store, ptr =>
    let (value, store) := store.alloc (store.cells pair.2)
    cloneLoop rest store (put store ptr pair.1 value)

def clone (state : StoredState F) (store : CellStore F) : CellStore F × StoredState F :=
  cloneLoop state.data store (new.setCost state.cost)

end StoredState

/-- What an executor does with the state it is given. Operands are addresses; a value
is written to through a pointer that the executor has. -/
inductive ExecutorCall (F : Type) where
  | newValue (value : StateValue F)
  | put (key value : Nat)
  | add (key value : Nat)
  | mul (key value : Nat)
  | remove (key : Nat)
  | merge (other : StoredState F)
  | assign (other : StoredState F)
  | assignMap (pairs : List (Nat × Nat))
  | cost (cost : F)
  | addCost (cost : F)
  | mulCost (cost : F)
  | at (key : Nat)
  | atRef (key : Nat)
  | atInt64 (idx : Int)
  | iterator (position : Nat)
  | write (value : Nat) (call : ValueCall F)

/-- The value objects that a call brings from outside. -/
def ExecutorCall.operands : ExecutorCall F → List Nat
  | .put _ value => [value]
  | .add _ value => [value]
  | .mul _ value => [value]
  | .merge other => other.data.map Prod.snd
  | .assign other => other.data.map Prod.snd
  | .assignMap pairs => pairs.map Prod.snd
  | _ => []

/-- An executor at work: the store, the state it modifies and the value objects it has
pointers to. -/
structure Execution (F : Type) where
  store : CellStore F
  newState : StoredState F
  values : List Nat

namespace Execution

def gets (this : Execution F) (value : Nat) : Execution F := { this with values := value :: this.values }

def getsNull (this : Execution F) (null : Nat) : Execution F :=
  gets { this with store := this.store.set null ⟨[]⟩ } null

/-- `*_data[key] += *value`, in `add` and in `mul`. -/
def addTo (this : Execution F) (key value : Nat) : Option (Execution F) :=
  (this.newState.find? this.store key).map fun current =>
    { this with
      store := this.store.set current ((this.store.cells current).add (this.store.cells value))
      newState := { this.newState with cachedHash := 0 } }

/-- One call; `none` where a null pointer is dereferenced or the executor has no such pointer. -/
def step (this : Execution F) : ExecutorCall F → Option (Execution F)
  | .newValue value =>
    let (address, store) := this.store.alloc value
    some (gets { this with store } address)
  | .put key value => some { this with newState := this.newState.put this.store key value }
  | .add key value => this.addTo key value
  | .mul key value => this.addTo key value
  | .remove key => some { this with newState := this.newState.remove this.store key }
  | .merge other => some { this with newState := this.newState.putAll this.store other.data }
  | .assign other => some { this with newState := { other with cachedHash := 0 } }
  | .assignMap pairs =>
    some { this with newState := StoredState.putAll this.store { this.newState with data := [] } pairs }
  | .cost cost => some { this with newState := this.newState.setCost cost }
  | .addCost cost => some { this with newState := this.newState.setCost (this.newState.cost + cost) }
  | .mulCost cost => some { this with newState := this.newState.setCost (this.newState.cost * cost) }
  | .at key =>
    match this.newState.find? this.store key with
    | none => some this
    | some value => some (this.gets value)
  | .atRef key =>
    match this.newState.find? this.store key with
    | none => some (this.getsNull nullValueRef)
    | some value => some (this.gets value)
  | .atInt64 idx =>
    if idx < 0 ∨ (this.newState.data.length : Int) ≤ idx then some (this.getsNull nullValue)
    else (this.newState.data[idx.toNat]?).map fun entry => this.gets entry.2
  | .iterator position => (this.newState.data[position]?).map fun entry => this.gets entry.2
  | .write value call =>
    if value ∈ this.values then
      ((CachedValue.new (this.store.cells value)).step call).map fun result =>
        { this with store := this.store.set value result.2.value }
    else none

def run : Execution F → List (ExecutorCall F) → Option (Execution F)
  | this, [] => some this
  | this, call :: rest => (this.step call).bind fun this => run this rest

end Execution

/-- `PlanningAction::execute` with an executor that makes the calls, given the value
objects it had before. -/
def StoredState.execute (state : StoredState F) (store : CellStore F) (values : List Nat)
    (calls : List (ExecutorCall F)) : Option (Execution F) :=
  let (store, newState) := state.clone store
  Execution.run ⟨store, newState.setCost (lit 1), values⟩ calls

/-- A state held in a store: its value objects are there. -/
structure HeldState (F : Type) where
  store : CellStore F
  state : StoredState F
  allocated : state.Allocated store

/-- Two stores that agree on some value objects. -/
def CellStore.AgreeOn (kept : List Nat) (store store' : CellStore F) : Prop :=
  ∀ address ∈ kept, store'.cells address = store.cells address

namespace CellStore

variable {kept : List Nat} {store store' store'' : CellStore F} {address : Nat} {value : StateValue F}

omit [FloatOps F] in
theorem AgreeOn.refl (kept : List Nat) (store : CellStore F) : AgreeOn kept store store := fun _ _ => rfl

omit [FloatOps F] in
theorem AgreeOn.trans (first : AgreeOn kept store store') (second : AgreeOn kept store' store'') :
    AgreeOn kept store store'' :=
  fun address member => (second address member).trans (first address member)

omit [FloatOps F] in
theorem agreeOn_set (outside : address ∉ kept) : AgreeOn kept store (store.set address value) := by
  intro other member
  have different : other ≠ address := by
    rintro rfl
    exact outside member
  exact Function.update_of_ne different _ _

omit [FloatOps F] in
theorem agreeOn_alloc (allocated : ∀ address ∈ kept, address < store.fresh) :
    AgreeOn kept store (store.alloc value).2 := by
  intro other member
  exact Function.update_of_ne (Nat.ne_of_lt (allocated other member)) _ _

end CellStore

namespace StoredState

variable {state : StoredState F} {store store' : CellStore F} {kept : List Nat}

/-- None of the values of a state is among the given ones. -/
def ValuesApart (kept : List Nat) (state : StoredState F) : Prop := ∀ entry ∈ state.data, entry.2 ∉ kept

omit [FloatOps F] in
/-- Entries read the same exactly if all their value objects do. -/
theorem map_read_eq_iff {data : List (Nat × Nat)} : data.map store'.read = data.map store.read ↔
    CellStore.AgreeOn (data.flatMap fun entry => [entry.1, entry.2]) store store' := by
  rw [List.map_inj_left]
  constructor
  · intro same address member
    obtain ⟨entry, stored, own⟩ := List.mem_flatMap.mp member
    obtain ⟨key, value⟩ := Prod.ext_iff.mp (same entry stored)
    rcases List.mem_pair.mp own with rfl | rfl
    · exact key
    · exact value
  · intro agree entry stored
    have inside : ∀ address ∈ [entry.1, entry.2], address ∈ data.flatMap fun entry => [entry.1, entry.2] :=
      fun address own => List.mem_flatMap.mpr ⟨entry, stored, own⟩
    exact Prod.ext (agree entry.1 (inside _ (by simp))) (agree entry.2 (inside _ (by simp)))

omit [FloatOps F] in
theorem entries_eq_iff : state.entries store' = state.entries store ↔ CellStore.AgreeOn state.addresses store store' :=
  map_read_eq_iff

theorem reading_eq_iff : state.reading store' = state.reading store ↔ CellStore.AgreeOn state.addresses store store' := by
  rw [← entries_eq_iff]
  constructor
  · intro same
    exact congrArg Prod.fst same
  · intro same
    rw [reading, reading, hash, hash, same]

theorem valuesApart_put {key value : Nat} (apart : state.ValuesApart kept) (outside : value ∉ kept) :
    (state.put store key value).ValuesApart kept := by
  intro entry member
  rcases HashedList.mem_insert member with old | ⟨own, _⟩
  · exact apart entry old
  · rwa [own]

theorem valuesApart_putAll {pairs : List (Nat × Nat)} (apart : state.ValuesApart kept)
    (outside : ∀ pair ∈ pairs, pair.2 ∉ kept) : (state.putAll store pairs).ValuesApart kept := by
  induction pairs generalizing state with
  | nil => exact apart
  | cons pair rest ih =>
    apply ih (valuesApart_put apart (outside pair List.mem_cons_self))
    exact fun later member => outside later (List.mem_cons_of_mem _ member)

theorem valuesApart_remove {key : Nat} (apart : state.ValuesApart kept) : (state.remove store key).ValuesApart kept :=
  fun entry member => apart entry (List.mem_of_mem_eraseP member)

theorem find?_outside {key value : Nat} (apart : state.ValuesApart kept) (found : state.find? store key = some value) :
    value ∉ kept := by
  obtain ⟨stored, member, _⟩ := HashedList.lookup_mem found
  exact apart _ member

theorem cloneLoop_apart {pairs : List (Nat × Nat)} {store : CellStore F} {ptr : StoredState F}
    (allocated : ∀ address ∈ kept, address < store.fresh) (apart : ptr.ValuesApart kept) :
    CellStore.AgreeOn kept store (cloneLoop pairs store ptr).1 ∧
      (∀ address ∈ kept, address < (cloneLoop pairs store ptr).1.fresh) ∧
      (cloneLoop pairs store ptr).2.ValuesApart kept := by
  induction pairs generalizing store ptr with
  | nil => exact ⟨.refl kept store, allocated, apart⟩
  | cons pair rest ih =>
    have outside : store.fresh ∉ kept := fun member => Nat.lt_irrefl _ (allocated _ member)
    have more : ∀ address ∈ kept, address < (store.alloc (store.cells pair.2)).2.fresh :=
      fun address member => Nat.lt_succ_of_lt (allocated address member)
    obtain ⟨agree, later, values⟩ := ih more (valuesApart_put apart outside)
    exact ⟨(CellStore.agreeOn_alloc allocated).trans agree, later, values⟩

end StoredState

namespace StoredState

/-- The states of both models are the same: read in the store, a stored state has the
entries and the cost of a state that holds its entries by value. -/
structure Represents (store : CellStore F) (stored : StoredState F) (state : State F) : Prop where
  entries : stored.entries store = state.data
  cost : stored.cost = state.cost

variable {store store' : CellStore F} {stored : StoredState F} {state : State F}

theorem represents_new (store : CellStore F) : Represents store new .new := ⟨rfl, rfl⟩

theorem Represents.setCost (represents : Represents store stored state) (cost : F) :
    Represents store (stored.setCost cost) (state.setCost cost) :=
  ⟨represents.entries, rfl⟩

theorem Represents.put (represents : Represents store stored state) (key value : Nat) :
    Represents store (stored.put store key value) (state.put (store.cells key) (store.cells value)) where
  entries :=
    (HashedList.insert_map fun _ _ => rfl).trans
      (congrArg (HashedList.insert StateValue.keyMatch _ _) represents.entries)
  cost := represents.cost

theorem Represents.putAll (represents : Represents store stored state) (pairs : List (Nat × Nat)) :
    Represents store (stored.putAll store pairs) (state.putAll (pairs.map store.read)) := by
  induction pairs generalizing stored state with
  | nil => exact represents
  | cons pair rest ih => exact ih (represents.put pair.1 pair.2)

theorem Represents.remove (represents : Represents store stored state) (key : Nat) :
    Represents store (stored.remove store key) (state.remove (store.cells key)) where
  entries :=
    (HashedList.erase_map fun _ _ => rfl).trans
      (congrArg (HashedList.erase StateValue.keyMatch _) represents.entries)
  cost := represents.cost

theorem Represents.find? (represents : Represents store stored state) (key : Nat) :
    (stored.find? store key).map store.cells = state.find? (store.cells key) := by
  have found : HashedList.lookup StateValue.keyMatch (store.cells key) (stored.entries store) =
      (HashedList.lookup store.fits key stored.data).map store.cells := HashedList.lookup_map fun _ _ => rfl
  rw [StoredState.find?, State.find?, ← found, represents.entries]

theorem Represents.hash (represents : Represents store stored state) (fresh : stored.cachedHash = 0) :
    stored.hash store = state.hash := by
  rw [StoredState.hash, State.hash, if_pos fresh, represents.entries, represents.cost]

omit [FloatOps F] in
theorem allocated_iff : Allocated store stored ↔ ∀ entry ∈ stored.data, entry.1 < store.fresh ∧ entry.2 < store.fresh := by
  constructor
  · intro allocated entry member
    have own : ∀ address ∈ [entry.1, entry.2], address ∈ stored.addresses := fun address inside =>
      List.mem_flatMap.mpr ⟨entry, member, inside⟩
    exact ⟨allocated _ (own _ (by simp)), allocated _ (own _ (by simp))⟩
  · intro each address member
    obtain ⟨entry, inside, own⟩ := List.mem_flatMap.mp member
    rcases List.mem_pair.mp own with rfl | rfl
    · exact (each entry inside).1
    · exact (each entry inside).2

theorem allocated_put {key value : Nat} (allocated : Allocated store stored) (keyThere : key < store.fresh)
    (valueThere : value < store.fresh) : Allocated store (stored.put store key value) := by
  rw [allocated_iff] at allocated ⊢
  intro entry member
  rcases HashedList.mem_insert member with old | ⟨own, first | ⟨previous, present, same⟩⟩
  · exact allocated entry old
  · rw [own, first]
    exact ⟨keyThere, valueThere⟩
  · rw [own, ← same]
    exact ⟨(allocated previous present).1, valueThere⟩

theorem Represents.of_agreeOn (represents : Represents store stored state)
    (agree : CellStore.AgreeOn stored.addresses store store') : Represents store' stored state :=
  ⟨(entries_eq_iff.mpr agree).trans represents.entries, represents.cost⟩

/-- A new value object changes nothing that is read. -/
theorem Represents.alloc (represents : Represents store stored state) (allocated : Allocated store stored)
    (value : StateValue F) : Represents (store.alloc value).2 stored state :=
  represents.of_agreeOn (CellStore.agreeOn_alloc allocated)

theorem represents_cloneLoop {pairs : List (Nat × Nat)}
    (there : ∀ pair ∈ pairs, pair.1 < store.fresh ∧ pair.2 < store.fresh) (allocated : Allocated store stored)
    (represents : Represents store stored state) :
    Represents (cloneLoop pairs store stored).1 (cloneLoop pairs store stored).2
      (state.putAll (pairs.map store.read)) := by
  induction pairs generalizing store stored state with
  | nil => exact represents
  | cons pair rest ih =>
    have old : ∀ {address}, address < store.fresh →
        (store.alloc (store.cells pair.2)).2.cells address = store.cells address :=
      fun before => Function.update_of_ne (Nat.ne_of_lt before) _ _
    have new : (store.alloc (store.cells pair.2)).2.cells store.fresh = store.cells pair.2 :=
      Function.update_self ..
    have more : ∀ {address}, address < store.fresh → address < (store.alloc (store.cells pair.2)).2.fresh :=
      fun before => Nat.lt_succ_of_lt before
    obtain ⟨keyThere, _⟩ := there pair List.mem_cons_self
    have later : ∀ entry ∈ rest, entry.1 < store.fresh ∧ entry.2 < store.fresh :=
      fun entry member => there entry (List.mem_cons_of_mem _ member)
    have put := (represents.alloc allocated (store.cells pair.2)).put pair.1 store.fresh
    rw [old keyThere, new] at put
    have kept : Allocated (store.alloc (store.cells pair.2)).2 stored := fun address member =>
      more (allocated address member)
    have copied := ih (fun entry member => (later entry member).imp more more)
      (allocated_put kept (more keyThere) (Nat.lt_succ_self _)) put
    have same : rest.map (store.alloc (store.cells pair.2)).2.read = rest.map store.read := by
      apply List.map_congr_left
      intro entry member
      exact Prod.ext (old (later entry member).1) (old (later entry member).2)
    rw [same] at copied
    exact copied

theorem Represents.clone (represents : Represents store stored state) (allocated : Allocated store stored) :
    Represents (stored.clone store).1 (stored.clone store).2 state.clone := by
  rw [State.clone, ← represents.entries, ← represents.cost]
  refine represents_cloneLoop (allocated_iff.mp allocated) ?_ ((represents_new store).setCost stored.cost)
  intro address member
  cases member

end StoredState

namespace Execution

variable {this after : Execution F} {kept : List Nat}

/-- An executor at work that can write to none of the kept value objects. -/
structure Apart (kept : List Nat) (this : Execution F) : Prop where
  values : ∀ value ∈ this.values, value ∉ kept
  newState : this.newState.ValuesApart kept
  allocated : ∀ address ∈ kept, address < this.store.fresh

/-- A step leaves the kept value objects as they are and out of reach. -/
def Keeps (kept : List Nat) (this after : Execution F) : Prop :=
  CellStore.AgreeOn kept this.store after.store ∧ after.Apart kept

section

omit [FloatOps F]

theorem keeps_of_newState {newState : StoredState F} (apart : this.Apart kept) (values : newState.ValuesApart kept) :
    Keeps kept this { this with newState } :=
  ⟨.refl kept this.store, apart.values, values, apart.allocated⟩

theorem keeps_set {address : Nat} {value : StateValue F} {newState : StoredState F} (apart : this.Apart kept)
    (outside : address ∉ kept) (values : newState.ValuesApart kept) :
    Keeps kept this { this with store := this.store.set address value, newState } :=
  ⟨CellStore.agreeOn_set outside, apart.values, values, apart.allocated⟩

theorem keeps_gets {value : Nat} (apart : this.Apart kept) (outside : value ∉ kept) :
    Keeps kept this (this.gets value) := by
  refine ⟨.refl kept this.store, ?_, apart.newState, apart.allocated⟩
  intro other member
  rcases List.mem_cons.mp member with rfl | old
  · exact outside
  · exact apart.values other old

theorem Keeps.trans {middle : Execution F} (first : Keeps kept this middle) (second : Keeps kept middle after) :
    Keeps kept this after :=
  ⟨first.1.trans second.1, second.2⟩

theorem keeps_getsNull {null : Nat} (apart : this.Apart kept) (outside : null ∉ kept) :
    Keeps kept this (this.getsNull null) := by
  have cleared : Keeps kept this { this with store := this.store.set null ⟨[]⟩ } :=
    keeps_set apart outside apart.newState
  exact cleared.trans (keeps_gets cleared.2 outside)

theorem keeps_newValue (apart : this.Apart kept) (value : StateValue F) :
    Keeps kept this (gets { this with store := (this.store.alloc value).2 } (this.store.alloc value).1) := by
  have outside : this.store.fresh ∉ kept := fun member => Nat.lt_irrefl _ (apart.allocated _ member)
  have filled : Keeps kept this { this with store := (this.store.alloc value).2 } :=
    ⟨CellStore.agreeOn_alloc apart.allocated, apart.values, apart.newState,
      fun address member => Nat.lt_succ_of_lt (apart.allocated address member)⟩
  exact filled.trans (keeps_gets filled.2 outside)

end

theorem keeps_addTo {key value : Nat} (apart : this.Apart kept) (ran : this.addTo key value = some after) :
    Keeps kept this after := by
  obtain ⟨current, found, rfl⟩ := Option.map_eq_some_iff.mp ran
  exact keeps_set apart (StoredState.find?_outside apart.newState found) apart.newState

/-- While neither of the static null values is kept, no call reaches a kept value
object by an operand from elsewhere. -/
theorem keeps_step {call : ExecutorCall F} (nulls : nullValue ∉ kept ∧ nullValueRef ∉ kept)
    (operands : ∀ value ∈ call.operands, value ∉ kept) (apart : this.Apart kept)
    (ran : this.step call = some after) : Keeps kept this after := by
  cases call with
  | newValue value =>
    cases ran
    exact keeps_newValue apart value
  | put key value =>
    cases ran
    exact keeps_of_newState apart (StoredState.valuesApart_put apart.newState (operands value List.mem_cons_self))
  | add key value => exact keeps_addTo apart ran
  | mul key value => exact keeps_addTo apart ran
  | remove key =>
    cases ran
    exact keeps_of_newState apart (StoredState.valuesApart_remove apart.newState)
  | merge other =>
    cases ran
    apply keeps_of_newState apart (StoredState.valuesApart_putAll apart.newState _)
    exact fun pair member => operands pair.2 (List.mem_map_of_mem member)
  | assign other =>
    cases ran
    apply keeps_of_newState apart
    exact fun pair member => operands pair.2 (List.mem_map_of_mem member)
  | assignMap pairs =>
    cases ran
    apply keeps_of_newState apart (StoredState.valuesApart_putAll _ _)
    · exact fun entry member => by cases member
    · exact fun pair member => operands pair.2 (List.mem_map_of_mem member)
  | cost cost | addCost cost | mulCost cost =>
    cases ran
    exact keeps_of_newState apart apart.newState
  | «at» key =>
    rw [step] at ran
    cases found : this.newState.find? this.store key with
    | none =>
      rw [found] at ran
      cases ran
      exact ⟨.refl kept this.store, apart⟩
    | some value =>
      rw [found] at ran
      cases ran
      exact keeps_gets apart (StoredState.find?_outside apart.newState found)
  | atRef key =>
    rw [step] at ran
    cases found : this.newState.find? this.store key with
    | none =>
      rw [found] at ran
      cases ran
      exact keeps_getsNull apart nulls.2
    | some value =>
      rw [found] at ran
      cases ran
      exact keeps_gets apart (StoredState.find?_outside apart.newState found)
  | atInt64 idx =>
    rw [step] at ran
    split at ran
    · cases ran
      exact keeps_getsNull apart nulls.1
    · obtain ⟨entry, found, rfl⟩ := Option.map_eq_some_iff.mp ran
      exact keeps_gets apart (apart.newState entry (List.mem_of_getElem? found))
  | iterator position =>
    obtain ⟨entry, found, rfl⟩ := Option.map_eq_some_iff.mp ran
    exact keeps_gets apart (apart.newState entry (List.mem_of_getElem? found))
  | write value call =>
    rw [step] at ran
    split at ran
    · rename_i held
      obtain ⟨result, _, rfl⟩ := Option.map_eq_some_iff.mp ran
      exact keeps_set apart (apart.values value held) apart.newState
    · cases ran

theorem keeps_run {calls : List (ExecutorCall F)} (nulls : nullValue ∉ kept ∧ nullValueRef ∉ kept)
    (operands : ∀ call ∈ calls, ∀ value ∈ call.operands, value ∉ kept) (apart : this.Apart kept)
    (ran : this.run calls = some after) : Keeps kept this after := by
  induction calls generalizing this with
  | nil =>
    cases ran
    exact ⟨.refl kept _, apart⟩
  | cons call rest ih =>
    obtain ⟨middle, first, later⟩ := Option.bind_eq_some_iff.mp ran
    have kept' := keeps_step nulls (operands call List.mem_cons_self) apart first
    exact kept'.trans (ih (fun call member => operands call (List.mem_cons_of_mem _ member)) kept'.2 later)

end Execution

namespace HeldState

variable (held : HeldState F)

/-- The promise of `execute`: whatever the executor does with value objects that are
not the state's, the state reads as before. -/
def Unmodified : Prop :=
  ∀ (values : List Nat) (calls : List (ExecutorCall F)) (after : Execution F),
    (∀ value ∈ values, value ∉ held.state.addresses) →
    (∀ call ∈ calls, ∀ value ∈ call.operands, value ∉ held.state.addresses) →
    held.state.execute held.store values calls = some after →
    held.state.reading after.store = held.state.reading held.store

def started (values : List Nat) : Execution F :=
  ⟨(held.state.clone held.store).1, (held.state.clone held.store).2.setCost (lit 1), values⟩

theorem started_represents {state : State F} (represents : StoredState.Represents held.store held.state state)
    (values : List Nat) :
    StoredState.Represents (held.started values).store (held.started values).newState (state.clone.setCost (lit 1)) :=
  (represents.clone held.allocated).setCost (lit 1)

theorem started_apart {values : List Nat} (outside : ∀ value ∈ values, value ∉ held.state.addresses) :
    CellStore.AgreeOn held.state.addresses held.store (held.started values).store ∧
      (held.started values).Apart held.state.addresses := by
  have empty : (StoredState.new.setCost held.state.cost).ValuesApart held.state.addresses :=
    fun entry member => by cases member
  obtain ⟨agree, allocated, apart⟩ := StoredState.cloneLoop_apart held.allocated empty
  exact ⟨agree, outside, apart, allocated⟩

def otherThan (value : StateValue F) : List F := if value.data = [] then [lit 0] else []

theorem otherThan_ne (value : StateValue F) : (⟨otherThan value⟩ : StateValue F) ≠ value := by
  obtain ⟨data⟩ := value
  rw [otherThan]
  split
  · rename_i empty
    simp only at empty
    simp [empty]
  · rename_i filled
    intro same
    exact filled (congrArg StateValue.data same).symm

/-- Writing through the value that `at` gives outside the range. -/
theorem run_atInt64 (list : List F) :
    ∃ after, (held.started []).run [.atInt64 (-1), .write nullValue (.assignList list)] = some after ∧
      after.store.cells nullValue = ⟨list⟩ := by
  refine ⟨_, rfl, ?_⟩
  simp only [CellStore.set, Function.update_self, CachedValue.new]

theorem run_atRef (list : List F) :
    ∃ after, (held.started []).run [.assignMap [], .atRef 0, .write nullValueRef (.assignList list)] = some after ∧
      after.store.cells nullValueRef = ⟨list⟩ := by
  refine ⟨_, rfl, ?_⟩
  simp only [CellStore.set, Function.update_self, CachedValue.new]

theorem Unmodified.cells_eq {held : HeldState F} (unmodified : held.Unmodified) {calls : List (ExecutorCall F)}
    {after : Execution F} {address : Nat} (member : address ∈ held.state.addresses)
    (own : ∀ call ∈ calls, call.operands = []) (ran : (held.started []).run calls = some after) :
    after.store.cells address = held.store.cells address := by
  have same := unmodified [] calls after (fun _ member => by cases member) ?_ ran
  · exact StoredState.reading_eq_iff.mp same address member
  · intro call present value operand
    rw [own call present] at operand
    cases operand

/-- Executing an action leaves every state as it was exactly if the state holds
neither of the static null values. -/
theorem unmodified_iff : held.Unmodified ↔
    nullValue ∉ held.state.addresses ∧ nullValueRef ∉ held.state.addresses := by
  constructor
  · intro unmodified
    constructor
    · intro member
      obtain ⟨after, ran, written⟩ := held.run_atInt64 (otherThan (held.store.cells nullValue))
      have kept := unmodified.cells_eq member (by simp [ExecutorCall.operands]) ran
      exact otherThan_ne _ (written.symm.trans kept)
    · intro member
      obtain ⟨after, ran, written⟩ := held.run_atRef (otherThan (held.store.cells nullValueRef))
      have kept := unmodified.cells_eq member (by simp [ExecutorCall.operands]) ran
      exact otherThan_ne _ (written.symm.trans kept)
  · intro nulls values calls after outside operands ran
    obtain ⟨agree, apart⟩ := held.started_apart outside
    obtain ⟨kept, _⟩ := Execution.keeps_run nulls operands apart ran
    exact StoredState.reading_eq_iff.mpr (agree.trans kept)

/-- The key x, at address 2, has the value that `at` gave outside the range of
another state. -/
def borrower : HeldState Float32 where
  store := ⟨fun address => if address = 2 then .ofString "x" else ⟨[]⟩, 3, by decide⟩
  state := ⟨[(2, nullValue)], lit 1, 0⟩
  allocated := by
    show ∀ address ∈ [2, nullValue], address < 3
    decide

/-- The executor writes 1 through what `at` gives outside the range, and the state it
was executed on has that value too. -/
theorem unmodified_fails : ¬ borrower.Unmodified := by
  intro unmodified
  obtain ⟨after, ran, written⟩ := borrower.run_atInt64 [lit 1]
  have member : nullValue ∈ borrower.state.addresses := by decide
  have kept := unmodified.cells_eq member (by simp [ExecutorCall.operands]) ran
  rw [written] at kept
  exact List.cons_ne_nil _ _ (congrArg StateValue.data kept)

end HeldState

end Goap
