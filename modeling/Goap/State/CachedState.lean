import Goap.State.State
import Goap.Value.CachedValue

namespace Goap

open FloatOps Foundation

variable {F : Type} [FloatOps F]

/-- `State` with `_cachedHash`; 0 stands for no hash. The entries are held by value. -/
structure CachedState (F : Type) [FloatOps F] where
  state : State F
  cachedHash : UInt64

/-- The public operations of `State`. -/
inductive StateCall (F : Type) [FloatOps F] where
  | put (key value : StateValue F)
  | add (key value : StateValue F)
  | mul (key value : StateValue F)
  | remove (key : StateValue F)
  | assign (other : Option (State F))
  | assignMap (pairs : List (StateValue F × StateValue F))
  | merge (other : State F)
  | cost (cost : F)
  | addCost (cost : F)
  | mulCost (cost : F)
  | clear
  | getCost
  | size
  | empty
  | keys
  | find (key : StateValue F)
  | atInt64 (idx : Int)
  | iterator
  | equals (other : State F)
  | hash

inductive StateAnswer (F : Type) where
  | done
  | threw (failure : Failure)
  | number (value : F)
  | size (size : Nat)
  | truth (truth : Bool)
  | keys (keys : List (StateValue F))
  | value (value : Option (StateValue F))
  | pair (pair : StateValue F × StateValue F)
  | pairs (pairs : List (StateValue F × StateValue F))
  | hash (hash : UInt64)

namespace State

/-- `_data.clear()`: the cost stays. -/
def withoutData (state : State F) : State F := new.setCost state.cost

/-- `at(int64_t)`: an empty key and value outside the range. -/
def atInt64 (state : State F) (idx : Int) : StateValue F × StateValue F :=
  if idx < 0 ∨ (state.size : Int) ≤ idx then (⟨[]⟩, ⟨[]⟩)
  else state.data.getD idx.toNat (⟨[]⟩, ⟨[]⟩)

end State

namespace CachedState

/-- The constructors: a state comes without a hash. -/
def new (state : State F) : CachedState F := ⟨state, 0⟩

def put (this : CachedState F) (key value : StateValue F) : CachedState F := new (this.state.put key value)

/-- `put` of every pair in turn. -/
def putAll (this : CachedState F) (pairs : List (StateValue F × StateValue F)) : CachedState F :=
  pairs.foldl (fun this pair => this.put pair.1 pair.2) this

/-- `assign(const map_value2value_type &)`: the entries are cleared without `touch()`. -/
def assignMap (this : CachedState F) (pairs : List (StateValue F × StateValue F)) : CachedState F :=
  putAll { this with state := this.state.withoutData } pairs

def merge (this : CachedState F) (other : State F) : CachedState F := this.putAll other.data

/-- `clear()`; the buckets that the table keeps are those of `TableState`. -/
def clear (_ : CachedState F) : CachedState F := new .new

/-- `hash()`: computed when no hash is kept, and kept from then on. -/
def hash (this : CachedState F) : UInt64 × CachedState F :=
  if this.cachedHash = 0 then (this.state.hash, { this with cachedHash := this.state.hash })
  else (this.cachedHash, this)

/-- One call; `none` where the source dereferences a null value. -/
def step (this : CachedState F) : StateCall F → Option (StateAnswer F × CachedState F)
  | .put key value => some (.done, this.put key value)
  | .add key value => (this.state.add key value).map fun state => (.done, new state)
  | .mul key value => (this.state.mul key value).map fun state => (.done, new state)
  | .remove key => some (.done, new (this.state.remove key))
  | .assign (some other) => some (.done, new other)
  | .assign none => some (.threw (.runtimeError "assign"), this)
  | .assignMap pairs => some (.done, this.assignMap pairs)
  | .merge other => some (.done, this.merge other)
  | .cost cost => some (.done, new (this.state.setCost cost))
  | .addCost cost => some (.done, new (this.state.addCost cost))
  | .mulCost cost => some (.done, new (this.state.mulCost cost))
  | .clear => some (.done, this.clear)
  | .getCost => some (.number this.state.cost, this)
  | .size => some (.size this.state.size, this)
  | .empty => some (.truth this.state.data.isEmpty, this)
  | .keys => some (.keys (this.state.data.map Prod.fst), this)
  | .find key => some (.value (this.state.find? key), this)
  | .atInt64 idx => some (.pair (this.state.atInt64 idx), this)
  | .iterator => some (.pairs this.state.data, this)
  | .equals other => some (.truth (this.state.equals other), this)
  | .hash => some (.hash this.hash.1, this.hash.2)

/-- The kept hash, if there is one, is that of the cost and the entries. -/
def Coherent (this : CachedState F) : Prop := this.cachedHash = 0 ∨ this.cachedHash = this.state.hash

/-- The call that keeps a hash of entries which are gone: an empty map is assigned to
a state that has entries and keeps a hash. -/
def Forgets (this : CachedState F) (call : StateCall F) : Prop :=
  call = .assignMap [] ∧ this.cachedHash ≠ 0 ∧ this.state.data ≠ []

theorem hash_ne_zero (state : State F) : state.hash ≠ 0 := by
  rw [State.hash]
  split
  · decide
  · assumption

variable {this changed : CachedState F}

theorem putAll_eq (this : CachedState F) (pairs : List (StateValue F × StateValue F)) :
    this.putAll pairs = ⟨this.state.putAll pairs, if pairs = [] then this.cachedHash else 0⟩ := by
  cases pairs with
  | nil => rfl
  | cons pair rest =>
    have later : ∀ (rest : List (StateValue F × StateValue F)) (state : State F),
        (new state).putAll rest = new (state.putAll rest) := by
      intro rest
      induction rest with
      | nil => exact fun _ => rfl
      | cons pair rest ih => exact fun state => ih (state.put pair.1 pair.2)
    exact later rest _

theorem state_assignMap (this : CachedState F) (pairs : List (StateValue F × StateValue F)) :
    (this.assignMap pairs).state = this.state.assignMap pairs := by
  rw [assignMap, putAll_eq]
  rfl

/-- `hash()` answers the hash of cost and entries exactly when the kept one is coherent. -/
theorem hash_eq_iff : this.hash.1 = this.state.hash ↔ this.Coherent := by
  rw [hash, Coherent]
  split <;> simp_all

theorem coherent_hash (coherent : this.Coherent) : this.hash.2.Coherent := by
  rw [hash]
  split
  · exact .inr rfl
  · exact coherent

theorem coherent_putAll (coherent : this.Coherent) (pairs : List (StateValue F × StateValue F)) :
    (this.putAll pairs).Coherent := by
  rw [putAll_eq]
  split
  · rename_i nothing
    subst nothing
    exact coherent
  · exact .inl rfl

theorem withoutData_eq {state : State F} (empty : state.data = []) : state.withoutData = state :=
  State.ext_data empty.symm rfl

/-- Assigning a map leaves a coherent hash, unless it forgets and the entries count in
the hash. -/
theorem coherent_assignMap_iff (coherent : this.Coherent) (pairs : List (StateValue F × StateValue F)) :
    (this.assignMap pairs).Coherent ↔
      (this.Forgets (.assignMap pairs) → this.state.hash = this.state.withoutData.hash) := by
  rw [assignMap, putAll_eq]
  cases pairs with
  | nil =>
    show this.cachedHash = 0 ∨ this.cachedHash = this.state.withoutData.hash ↔ _
    rcases coherent with none | kept
    · refine iff_of_true (.inl none) ?_
      intro forgets
      exact absurd none forgets.2.1
    · have present : this.cachedHash ≠ 0 := by
        rw [kept]
        exact hash_ne_zero this.state
      rw [or_iff_right present, kept]
      constructor
      · exact fun same _ => same
      · intro counted
        by_cases empty : this.state.data = []
        · rw [withoutData_eq empty]
        · exact counted ⟨rfl, present, empty⟩
  | cons pair rest =>
    refine iff_of_true (.inl rfl) ?_
    intro forgets
    cases forgets.1

/-- Every other call leaves a coherent hash. -/
theorem coherent_step {call : StateCall F} {answer : StateAnswer F} (coherent : this.Coherent)
    (unlike : ∀ pairs, call ≠ .assignMap pairs) (ran : this.step call = some (answer, changed)) :
    changed.Coherent := by
  cases call with
  | put key value | remove key | cost cost | addCost cost | mulCost cost | clear =>
    cases ran
    exact .inl rfl
  | add key value | mul key value =>
    obtain ⟨_, _, same⟩ := Option.map_eq_some_iff.mp ran
    cases same
    exact .inl rfl
  | assign other =>
    cases other with
    | none =>
      cases ran
      exact coherent
    | some other =>
      cases ran
      exact .inl rfl
  | assignMap pairs => exact absurd rfl (unlike pairs)
  | merge other =>
    cases ran
    exact coherent_putAll coherent other.data
  | getCost | size | empty | keys | find key | atInt64 idx | iterator | equals other =>
    cases ran
    exact coherent
  | hash =>
    cases ran
    exact coherent_hash coherent

/-- One step from a coherent state is coherent, unless it forgets and the entries
count in the hash. -/
theorem coherent_step_iff {call : StateCall F} {answer : StateAnswer F} (coherent : this.Coherent)
    (ran : this.step call = some (answer, changed)) :
    changed.Coherent ↔ (this.Forgets call → this.state.hash = this.state.withoutData.hash) := by
  by_cases assigns : ∃ pairs, call = .assignMap pairs
  · obtain ⟨pairs, rfl⟩ := assigns
    cases ran
    exact coherent_assignMap_iff coherent pairs
  · have unlike : ∀ pairs, call ≠ .assignMap pairs := fun pairs same => assigns ⟨pairs, same⟩
    refine iff_of_true (coherent_step coherent unlike ran) ?_
    intro forgets
    exact absurd forgets.1 (unlike [])

/-- What `hash()` answers after a step is the hash of the cost and the entries. -/
def HashesAfresh (_ : CachedState F) (_ : StateCall F) (_ : StateAnswer F) (changed : CachedState F) : Prop :=
  changed.hash.1 = changed.state.hash

/-- In every state of a run `hash()` answers the hash of the cost and the entries,
exactly if the entries count in the hash of no state that forgets them. -/
theorem allSteps_hashesAfresh_iff (state : State F) (calls : List (StateCall F)) :
    AllSteps step HashesAfresh (new state) calls ↔
      AllSteps step (fun this call _ _ => this.Forgets call → this.state.hash = this.state.withoutData.hash)
        (new state) calls := by
  apply allSteps_iff Coherent
  · intro this call answer changed coherent ran
    rw [HashesAfresh, hash_eq_iff]
    exact coherent_step_iff coherent ran
  · intro this call answer changed coherent ran allowed
    exact (coherent_step_iff coherent ran).mpr allowed
  · exact .inl rfl

/-- In every state of a run that never forgets, `hash()` answers the hash of the cost
and the entries; in every state of a value's run, it answers that of the components. -/
theorem allSteps_hash_of_not_forgets (state : State F) (calls : List (StateCall F)) (value : StateValue F)
    (valueCalls : List (ValueCall F))
    (remembers : AllSteps step (fun this call _ _ => ¬ this.Forgets call) (new state) calls) :
    AllSteps step HashesAfresh (new state) calls ∧
      AllSteps CachedValue.step (fun _ _ _ (changed : CachedValue F) => changed.hash.1 = changed.value.hash)
        (.new value) valueCalls := by
  refine ⟨(allSteps_hashesAfresh_iff state calls).mpr ?_, CachedValue.allSteps_hash value valueCalls⟩
  apply AllSteps.imp (fun _ => True) _ trivial remembers
  intro this call answer changed _ _ kept
  exact ⟨fun forgets => absurd forgets kept, trivial⟩

/-- Entries and a hash are there, and what is assigned is not empty. -/
theorem allSteps_hash_of_not_forgets_assigned :
    AllSteps step HashesAfresh (new .new : CachedState Float32)
        [.put (.ofString "x") (.scalar (lit 1)), .hash, .assignMap [(.ofString "y", .scalar (lit 2))], .hash] ∧
      AllSteps CachedValue.step (fun _ _ _ (changed : CachedValue Float32) => changed.hash.1 = changed.value.hash)
        (.new (.scalar (lit 1))) [.hash, .resize 2, .hash] := by
  apply allSteps_hash_of_not_forgets
  repeat
    intro answer changed ran
    refine ⟨?_, ?_⟩
    · rintro ⟨same, _⟩
      cases same
    cases ran
  trivial

/-- A state with one entry is hashed, the empty map is assigned, and `hash()`
answers the hash of the entry that is gone. -/
theorem allSteps_hash_fails :
    ¬ AllSteps step HashesAfresh (new .new : CachedState Float32)
      [.put (.ofString "x") (.scalar (lit 1)), .hash, .assignMap []] := by
  intro all
  have last := (allSteps_cons rfl).mp ((allSteps_cons rfl).mp ((allSteps_cons rfl).mp all).2).2
  have stale : ¬ (((new (.new : State Float32)).put (.ofString "x") (.scalar (lit 1))).hash.2.assignMap []).hash.1 =
      (((new (.new : State Float32)).put (.ofString "x") (.scalar (lit 1))).hash.2.assignMap []).state.hash := by
    decide +kernel
  exact stale last.1

end CachedState

end Goap
