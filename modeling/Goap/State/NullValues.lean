import Goap.Search.PlanningAction

namespace Goap

open FloatOps Foundation

variable {F : Type} [FloatOps F]

abbrev NullableEntry (F : Type) := StateValue F × Option (StateValue F)

/-- A `State` whose value pointers may be null. A hash is kept only of entries that were
all dereferenced for it. -/
structure NullableState (F : Type) [FloatOps F] where
  data : List (NullableEntry F)
  cost : F
  cachedHash : UInt64
  kept : cachedHash = 0 ∨ ∀ entry ∈ data, entry.2.isSome = true

/-- Every value dereferenced in turn; `none` when one of them is null. -/
def derefAll : List (NullableEntry F) → Option (List (StateValue F × StateValue F))
  | [] => some []
  | (_, none) :: _ => none
  | (key, some value) :: rest => (derefAll rest).map ((key, value) :: ·)

omit [FloatOps F] in
theorem derefAll_isSome_iff (data : List (NullableEntry F)) :
    (derefAll data).isSome = true ↔ ∀ entry ∈ data, entry.2.isSome = true := by
  fun_induction derefAll data with
  | case1 => simp
  | case2 => simp
  | case3 key value rest ih => simp [ih]

namespace NullableState

def new : NullableState F := ⟨[], lit 1, 0, .inl rfl⟩

/-- `_data.find(key)`: the pointer stored under the key, if the key is there. -/
def find? (state : NullableState F) (key : StateValue F) : Option (Option (StateValue F)) :=
  HashedList.lookup StateValue.keyMatch key state.data

def setCost (state : NullableState F) (cost : F) : NullableState F := ⟨state.data, cost, 0, .inl rfl⟩

def put (state : NullableState F) (key : StateValue F) (value : Option (StateValue F)) : NullableState F :=
  ⟨HashedList.insert StateValue.keyMatch key value state.data, state.cost, 0, .inl rfl⟩

def remove (state : NullableState F) (key : StateValue F) : NullableState F :=
  ⟨HashedList.erase StateValue.keyMatch key state.data, state.cost, 0, .inl rfl⟩

/-- `put` of every pair in turn. -/
def putAll (state : NullableState F) (pairs : List (NullableEntry F)) : NullableState F :=
  pairs.foldl (fun state pair => state.put pair.1 pair.2) state

/-- `assign(const State &)`. -/
def assign (_ other : NullableState F) : NullableState F := ⟨other.data, other.cost, 0, .inl rfl⟩

/-- `assign(const map_value2value_type &)`: the entries are cleared without `touch()`. -/
def assignMap (state : NullableState F) (pairs : List (NullableEntry F)) : NullableState F :=
  putAll ⟨[], state.cost, state.cachedHash, .inr fun _ member => by cases member⟩ pairs

def merge (state other : NullableState F) : NullableState F := state.putAll other.data

/-- `*_data[key] += *value`, in `add` and in `mul`. An absent key is stored with a null
value first. -/
def addTo (state : NullableState F) (key : StateValue F) (value : Option (StateValue F)) : Option (NullableState F) :=
  match state.find? key, value with
  | some (some current), some value => some (state.put key (some (current.add value)))
  | _, _ => none

/-- `hash()`, with the state that keeps it. -/
def hash (state : NullableState F) : Option (UInt64 × NullableState F) :=
  if state.cachedHash = 0 then
    match read : derefAll state.data with
    | none => none
    | some entries =>
      let h := entries.foldl (fun h entry => h ^^^ entry.1.hash ^^^ entry.2.hash) (BasicMath.hash [state.cost])
      let h := if h = 0 then 1 else h
      some (h, ⟨state.data, state.cost, h, .inr ((derefAll_isSome_iff _).mp (by rw [read]; rfl))⟩)
  else some (state.cachedHash, state)

/-- The loop of `equals`. A value is dereferenced when the other state has its key; the
`equals` of values answers false to a null one. -/
def equalsLoop (other : NullableState F) : List (NullableEntry F) → Option Bool
  | [] => some true
  | (key, value) :: rest =>
    match other.find? key with
    | none => some false
    | some found =>
      match value, found with
      | none, _ => none
      | some _, none => some false
      | some value, some found => if value.equals found then equalsLoop other rest else some false

def equals (state other : NullableState F) : Option Bool :=
  if state.data.length = other.data.length then equalsLoop other state.data else some false

def clone (state : NullableState F) : Option (NullableState F) :=
  (derefAll state.data).map fun entries => (new.setCost state.cost).putAll (entries.map (Prod.map id some))

/-- `toOstream`: the cost and the entries that are printed. -/
def toOstream (state : NullableState F) : Option (F × List (StateValue F × StateValue F)) :=
  (derefAll state.data).map (state.cost, ·)

/-- `PlanningAction::execute`: the executor edits a clone that costs 1. -/
def execute (state : NullableState F) (executor : NullableState F → Except Exn (NullableState F)) :
    Option (Except Exn (NullableState F)) :=
  state.clone.map fun newState => executor (newState.setCost (lit 1))

/-- No value pointer of the state is null. -/
def Present (state : NullableState F) : Prop := ∀ entry ∈ state.data, entry.2.isSome = true

/-- `equals` gets to a null value: the other state has its key and the entries before it
are all equal in both. -/
def MeetsNull (state other : NullableState F) : Prop :=
  ∃ before key after, state.data = before ++ (key, none) :: after ∧ (other.find? key).isSome = true ∧
    ∀ entry ∈ before, ∃ value found, entry.2 = some value ∧ other.find? entry.1 = some (some found) ∧
      value.equals found = true

theorem equalsLoop_eq_none_iff (other : NullableState F) (data : List (NullableEntry F)) :
    equalsLoop other data = none ↔ ∃ before key after, data = before ++ (key, none) :: after ∧
      (other.find? key).isSome = true ∧ ∀ entry ∈ before, ∃ value found, entry.2 = some value ∧
        other.find? entry.1 = some (some found) ∧ value.equals found = true := by
  induction data with
  | nil => simp [equalsLoop]
  | cons entry rest ih =>
    obtain ⟨key, value⟩ := entry
    constructor
    · intro tripped
      unfold equalsLoop at tripped
      cases there : other.find? key with
      | none => simp [there] at tripped
      | some found =>
        cases value with
        | none => exact ⟨[], key, rest, rfl, by rw [there]; rfl, fun _ member => by cases member⟩
        | some value =>
          cases found with
          | none => simp [there] at tripped
          | some found =>
            simp only [there] at tripped
            split at tripped
            · rename_i equal
              obtain ⟨before, key', after, split, present, equals⟩ := ih.mp tripped
              refine ⟨(key, some value) :: before, key', after, by rw [split, List.cons_append], present, ?_⟩
              rw [List.forall_mem_cons]
              exact ⟨⟨value, found, rfl, there, equal⟩, equals⟩
            · cases tripped
    · intro meets
      obtain ⟨before, key', after, split, present, equals⟩ := meets
      cases before with
      | nil =>
        cases split
        obtain ⟨found, there⟩ := Option.isSome_iff_exists.mp present
        simp [equalsLoop, there]
      | cons first others =>
        cases split
        rw [List.forall_mem_cons] at equals
        obtain ⟨⟨value, found, rfl, there, equal⟩, equals⟩ := equals
        simp only [equalsLoop, there, equal, ↓reduceIte]
        exact ih.mpr ⟨others, key', after, rfl, present, equals⟩

def ofState (state : State F) : NullableState F := ⟨state.data.map (Prod.map id some), state.cost, 0, .inl rfl⟩

omit [FloatOps F] in
theorem derefAll_some (entries : List (StateValue F × StateValue F)) :
    derefAll (entries.map (Prod.map id some)) = some entries := by
  induction entries with
  | nil => rfl
  | cons entry rest ih =>
    rw [List.map_cons]
    show (derefAll _).map _ = _
    rw [ih]
    rfl

theorem keyMatch_id (probe stored : StateValue F) :
    StateValue.keyMatch (id probe) (id stored) = StateValue.keyMatch probe stored := rfl

theorem find?_ofState (state : State F) (key : StateValue F) :
    (ofState state).find? key = (state.find? key).map some :=
  HashedList.lookup_map keyMatch_id

theorem put_ofState (state : State F) (key value : StateValue F) :
    (ofState state).put key (some value) = ofState (state.put key value) := by
  have same : HashedList.insert StateValue.keyMatch key (some value) (state.data.map (Prod.map id some)) =
      (HashedList.insert StateValue.keyMatch key value state.data).map (Prod.map id some) :=
    (HashedList.insert_map keyMatch_id).symm
  simp only [put, ofState, State.put, same]

theorem putAll_ofState (state : State F) (pairs : List (StateValue F × StateValue F)) :
    (ofState state).putAll (pairs.map (Prod.map id some)) = ofState (state.putAll pairs) := by
  induction pairs generalizing state with
  | nil => rfl
  | cons pair rest ih => exact (congrArg (putAll · _) (put_ofState state pair.1 pair.2)).trans (ih _)

theorem addTo_ofState (state : State F) (key value : StateValue F) :
    (ofState state).addTo key (some value) = (state.add key value).map ofState := by
  unfold addTo State.add
  rw [find?_ofState]
  cases state.find? key with
  | none => rfl
  | some current => exact congrArg some (put_ofState state key (current.add value))

theorem hash_ofState (state : State F) : (ofState state).hash.map Prod.fst = some state.hash := by
  have present := derefAll_some state.data
  unfold hash ofState
  rw [if_pos rfl]
  split
  · rename_i tripped
    cases tripped.symm.trans present
  · rename_i entries read
    cases read.symm.trans present
    rfl

theorem clone_ofState (state : State F) : (ofState state).clone = some (ofState state.clone) := by
  rw [clone, ofState, derefAll_some]
  exact congrArg some (putAll_ofState (State.new.setCost state.cost) state.data)

theorem equalsLoop_ofState (other : State F) (entries : List (StateValue F × StateValue F)) :
    equalsLoop (ofState other) (entries.map (Prod.map id some)) = some (entries.all fun entry =>
      match other.find? entry.1 with
      | none => false
      | some value => entry.2.equals value) := by
  induction entries with
  | nil => rfl
  | cons entry rest ih =>
    simp only [List.map_cons, Prod.map, id_eq, equalsLoop, find?_ofState, List.all_cons]
    cases other.find? entry.1 with
    | none => rfl
    | some found =>
      simp only [Option.map_some]
      split
      · rename_i equal
        rw [equal, Bool.true_and]
        exact ih
      · rename_i different
        rw [Bool.eq_false_iff.mpr different, Bool.false_and]

theorem equals_ofState (state other : State F) :
    (ofState state).equals (ofState other) = some (state.equals other) := by
  have sizes : ((ofState state).data.length = (ofState other).data.length) ↔ state.size = other.size := by
    simp [ofState, State.size]
  rw [equals, State.equals]
  by_cases same : state.size = other.size
  · rw [if_pos (sizes.mpr same), same, BEq.rfl, Bool.true_and]
    exact equalsLoop_ofState other state.data
  · rw [if_neg fun equal => same (sizes.mp equal), beq_false_of_ne same, Bool.false_and]

/-- The operations that read or write through value pointers. -/
inductive ValueAccess (F : Type) [FloatOps F] where
  | add (key : StateValue F) (value : Option (StateValue F))
  | mul (key : StateValue F) (value : Option (StateValue F))
  | hash
  | equals (other : NullableState F)
  | clone
  | toOstream
  | execute (executor : NullableState F → Except Exn (NullableState F))

/-- Whether an operation dereferences no null value pointer. -/
def survives (state : NullableState F) : ValueAccess F → Bool
  | .add key value => (state.addTo key value).isSome
  | .mul key value => (state.addTo key value).isSome
  | .hash => state.hash.isSome
  | .equals other => (state.equals other).isSome
  | .clone => state.clone.isSome
  | .toOstream => state.toOstream.isSome
  | .execute executor => (state.execute executor).isSome

/-- The values that an operation gets to are not null. -/
def Provided (state : NullableState F) : ValueAccess F → Prop
  | .add key value => (∃ current, state.find? key = some (some current)) ∧ value.isSome = true
  | .mul key value => (∃ current, state.find? key = some (some current)) ∧ value.isSome = true
  | .equals other => state.data.length = other.data.length → ¬ state.MeetsNull other
  | .hash => state.Present
  | .clone => state.Present
  | .toOstream => state.Present
  | .execute _ => state.Present

theorem addTo_isSome_iff (state : NullableState F) (key : StateValue F) (value : Option (StateValue F)) :
    (state.addTo key value).isSome = true ↔ (∃ current, state.find? key = some (some current)) ∧ value.isSome = true := by
  unfold addTo
  cases state.find? key with
  | none => simp
  | some pointer => cases pointer <;> cases value <;> simp

theorem hash_isSome_iff (state : NullableState F) : state.hash.isSome = true ↔ state.Present := by
  rw [Present, ← derefAll_isSome_iff]
  unfold hash
  split
  · split <;> simp_all
  · rename_i keeps
    have present := (derefAll_isSome_iff _).mpr (state.kept.resolve_left keeps)
    simp [present]

theorem equals_isSome_iff (state other : NullableState F) : (state.equals other).isSome = true ↔
    (state.data.length = other.data.length → ¬ state.MeetsNull other) := by
  rw [equals, MeetsNull, ← equalsLoop_eq_none_iff]
  split
  · rename_i same
    simp [same, Option.isSome_iff_ne_none]
  · rename_i other
    simp [other]

theorem survives_iff (state : NullableState F) (access : ValueAccess F) :
    state.survives access = true ↔ state.Provided access := by
  have all := derefAll_isSome_iff state.data
  cases access with
  | add key value => exact addTo_isSome_iff state key value
  | mul key value => exact addTo_isSome_iff state key value
  | hash => exact hash_isSome_iff state
  | equals other => exact equals_isSome_iff state other
  | clone => simpa [survives, clone, Provided, Present] using all
  | toOstream => simpa [survives, toOstream, Provided, Present] using all
  | execute executor => simpa [survives, execute, clone, Provided, Present] using all

/-- The operations that make states. `hash` ends the program at a null value and keeps a
hash otherwise. -/
inductive NullableCall (F : Type) [FloatOps F] where
  | put (key : StateValue F) (value : Option (StateValue F))
  | assign (other : NullableState F)
  | assignMap (pairs : List (NullableEntry F))
  | merge (other : NullableState F)
  | remove (key : StateValue F)
  | hash

def step (state : NullableState F) : NullableCall F → NullableState F
  | .put key value => state.put key value
  | .assign other => state.assign other
  | .assignMap pairs => state.assignMap pairs
  | .merge other => state.merge other
  | .remove key => state.remove key
  | .hash => state.hash.elim state Prod.snd

def made (calls : List (NullableCall F)) : NullableState F := calls.foldl step new

/-- Whatever has been called on a state, `add` and `mul` survive exactly where the key has
a value that is not null (and the operand is none), `hash`, `clone`, `toOstream` and
`execute` where no value is null, and `equals` where it gets to no null value. -/
theorem made_survives_iff (calls : List (NullableCall F)) (access : ValueAccess F) :
    (made calls).survives access = true ↔ (made calls).Provided access :=
  survives_iff (made calls) access

/-- A state with a null value cannot be hashed. -/
theorem made_survives_fails : ¬ ∀ (calls : List (NullableCall ℚ)) (access : ValueAccess ℚ),
    (made calls).survives access = true := by
  intro all
  exact absurd (all [.put (.scalar 0) none] .hash) (by decide +kernel)

end NullableState

end Goap
