import Goap.Foundation.FiniteMap
import Goap.Foundation.Run
import Goap.State.CachedState
import Goap.State.SameEntries

namespace Goap

open FloatOps Foundation HashedList

open scoped Classical

variable {F : Type} [FloatOps F] {values : F → Prop}

/-- The public operations of a state, on values and other states as they are given to it. -/
inductive StateOperation (F Value Other : Type) where
  | put (key value : Value)
  | add (key value : Value)
  | mul (key value : Value)
  | remove (key : Value)
  | assign (other : Option Other)
  | assignMap (pairs : List (Value × Value))
  | merge (other : Other)
  | cost (cost : F)
  | addCost (cost : F)
  | mulCost (cost : F)
  | clear
  | getCost
  | size
  | empty
  | keys
  | find (key : Value)
  | atInt64 (idx : Int)
  | iterator
  | equals (other : Other)
  | hash

namespace StateOperation

variable {Value Value' Other Other' : Type}

/-- The operation with its operands read. -/
def map (value : Value → Value') (state : Other → Other') : StateOperation F Value Other → StateOperation F Value' Other'
  | .put key stored => .put (value key) (value stored)
  | .add key stored => .add (value key) (value stored)
  | .mul key stored => .mul (value key) (value stored)
  | .remove key => .remove (value key)
  | .assign other => .assign (other.map state)
  | .assignMap pairs => .assignMap (pairs.map (Prod.map value value))
  | .merge other => .merge (state other)
  | .cost price => .cost price
  | .addCost price => .addCost price
  | .mulCost price => .mulCost price
  | .clear => .clear
  | .getCost => .getCost
  | .size => .size
  | .empty => .empty
  | .keys => .keys
  | .find key => .find (value key)
  | .atInt64 idx => .atInt64 idx
  | .iterator => .iterator
  | .equals other => .equals (state other)
  | .hash => .hash

def givenKeys : StateOperation F Value Other → List Value
  | .put key _ | .add key _ | .mul key _ | .remove key | .find key => [key]
  | .assignMap pairs => pairs.map Prod.fst
  | _ => []

end StateOperation

/-- What a state is for: values under keys, and a cost. -/
structure StateMap (F : Type) [FloatOps F] where
  value? : StateValue F → Option (StateValue F)
  cost : F

namespace StateMap

def new : StateMap F := ⟨fun _ => none, lit 1⟩

def keys (values : F → Prop) (this : StateMap F) : Set (StateValue F) := {key | key.Within values ∧ (this.value? key).isSome}

noncomputable def set (this : StateMap F) (key : StateValue F) (value? : Option (StateValue F)) : StateMap F :=
  { this with value? := Function.update this.value? key value? }

/-- What a call does. Adding to nothing is undefined, and `mul` adds as well. -/
noncomputable def step (this : StateMap F) : StateOperation F (StateValue F) (StateMap F) → Option (StateMap F)
  | .put key value => some (this.set key (some value))
  | .add key value | .mul key value => (this.value? key).map fun current => this.set key (some (current.add value))
  | .remove key => some (this.set key none)
  | .assign (some other) => some other
  | .assignMap pairs => some { this with
      value? := pairs.foldl (fun map pair => Function.update map pair.1 (some pair.2)) fun _ => none }
  | .merge other => some { this with value? := fun key => (other.value? key).or (this.value? key) }
  | .cost cost => some { this with cost }
  | .addCost cost => some { this with cost := this.cost + cost }
  | .mulCost cost => some { this with cost := this.cost * cost }
  | .clear => some new
  | _ => some this

/-- What a call answers. The hash, which also depends on calls before, is left open. -/
def Answers (values : F → Prop) (this : StateMap F) :
    StateOperation F (StateValue F) (StateMap F) → StateAnswer F → Prop
  | .assign none, answer => answer = .threw (.runtimeError "assign")
  | .getCost, answer => answer = .number this.cost
  | .size, answer => answer = .size (this.keys values).ncard
  | .empty, answer => ∃ truth, answer = .truth truth ∧ (truth = true ↔ this.keys values = ∅)
  | .keys, answer => ∃ keys, answer = .keys keys ∧ keys.Nodup ∧ ∀ key, key ∈ keys ↔ key ∈ this.keys values
  | .find key, answer => answer = .value (this.value? key)
  | .atInt64 idx, answer => ∃ pair, answer = .pair pair ∧
      if 0 ≤ idx ∧ idx < (this.keys values).ncard then pair.1 ∈ this.keys values ∧ this.value? pair.1 = some pair.2
      else pair = (⟨[]⟩, ⟨[]⟩)
  | .iterator, answer => ∃ pairs, answer = .pairs pairs ∧ (pairs.map Prod.fst).Nodup ∧
      ∀ key value, (key, value) ∈ pairs ↔ key.Within values ∧ this.value? key = some value
  | .equals other, answer => ∃ truth, answer = .truth truth ∧ (truth = true ↔ ∀ key, key.Within values →
      Option.Rel (fun value stored => value.equals stored = true) (this.value? key) (other.value? key))
  | .hash, answer => ∃ hash, answer = .hash hash
  | _, answer => answer = .done

end StateMap

/-- A state reads as a map. -/
structure State.ReadsAs (values : F → Prop) (state : State F) (map : StateMap F) : Prop where
  represents : Represents StateValue.keyMatch (StateValue.Within values) state.data map.value?
  cost : state.cost = map.cost

variable {state : State F} {map : StateMap F}

theorem matchesExactly_keyMatch (exact : ExactOn values) :
    MatchesExactly StateValue.keyMatch (StateValue.Within values) :=
  fun _ _ known known' => StateValue.keyMatch_iff exact known known'

namespace State.ReadsAs

theorem put (reads : state.ReadsAs values map) (exact : ExactOn values) {key : StateValue F} (known : key.Within values)
    (value : StateValue F) :
    (state.put key value).ReadsAs values (map.set key (some value)) :=
  ⟨reads.represents.insert (matchesExactly_keyMatch exact) known value, reads.cost⟩

theorem putAll (reads : state.ReadsAs values map) (exact : ExactOn values) {pairs : List (StateValue F × StateValue F)}
    (known : ∀ pair ∈ pairs, pair.1.Within values) :
    (state.putAll pairs).ReadsAs values { map with
      value? := pairs.foldl (fun map pair => Function.update map pair.1 (some pair.2)) map.value? } := by
  refine ⟨?_, (cost_putAll state pairs).trans reads.cost⟩
  rw [data_putAll]
  exact reads.represents.insertAll (matchesExactly_keyMatch exact) known

theorem merge (reads : state.ReadsAs values map) (exact : ExactOn values) {other : State F} {map' : StateMap F}
    (reads' : other.ReadsAs values map') :
    (state.merge other).ReadsAs values { map with value? := fun key => (map'.value? key).or (map.value? key) } := by
  refine ⟨?_, (cost_putAll state other.data).trans reads.cost⟩
  rw [State.merge, data_putAll]
  exact reads.represents.merge reads'.represents (matchesExactly_keyMatch exact)

theorem find?_eq (reads : state.ReadsAs values map) {key : StateValue F} (known : key.Within values) :
    state.find? key = map.value? key := reads.represents.reads key known

theorem size_eq (reads : state.ReadsAs values map) (exact : ExactOn values) : state.size = (map.keys values).ncard :=
  reads.represents.length_eq (matchesExactly_keyMatch exact)

theorem mem_keys (reads : state.ReadsAs values map) (exact : ExactOn values) (key : StateValue F) :
    key ∈ state.data.map Prod.fst ↔ key ∈ map.keys values := reads.represents.mem_keys (matchesExactly_keyMatch exact)

theorem isEmpty_iff (reads : state.ReadsAs values map) (exact : ExactOn values) :
    state.data.isEmpty = true ↔ map.keys values = ∅ := by
  rw [List.isEmpty_iff, Set.eq_empty_iff_forall_notMem]
  constructor
  · intro nothing key member
    rw [← reads.mem_keys exact, nothing] at member
    cases member
  · intro nothing
    cases entries : state.data with
    | nil => rfl
    | cons entry rest =>
      have member : entry.1 ∈ state.data.map Prod.fst := List.mem_map_of_mem (by simp [entries])
      exact absurd ((reads.mem_keys exact entry.1).mp member) (nothing entry.1)

theorem atInt64_spec (reads : state.ReadsAs values map) (exact : ExactOn values) (idx : Int) :
    if 0 ≤ idx ∧ idx < (map.keys values).ncard then
      (state.atInt64 idx).1 ∈ map.keys values ∧ map.value? (state.atInt64 idx).1 = some (state.atInt64 idx).2
    else state.atInt64 idx = (⟨[]⟩, ⟨[]⟩) := by
  rw [← reads.size_eq exact, State.atInt64]
  split_ifs with inside outside outside
  · omega
  · have bound : idx.toNat < state.data.length := by
      rw [State.size] at inside
      omega
    have member : state.data.getD idx.toNat (⟨[]⟩, ⟨[]⟩) ∈ state.data := by
      simp only [List.getD_eq_getElem?_getD, List.getElem?_eq_getElem bound, Option.getD_some]
      exact List.getElem_mem bound
    generalize state.data.getD idx.toNat (⟨[]⟩, ⟨[]⟩) = pair at member ⊢
    obtain ⟨known, found⟩ := (reads.represents.mem_iff (matchesExactly_keyMatch exact)).mp member
    exact ⟨⟨known, Option.isSome_iff_exists.mpr ⟨_, found⟩⟩, found⟩
  · rfl
  · omega

/-- Equal states have equal values under the same keys. -/
theorem equals_iff (reads : state.ReadsAs values map) (exact : ExactOn values) {other : State F} {map' : StateMap F}
    (reads' : other.ReadsAs values map') : state.equals other = true ↔ ∀ key, key.Within values →
      Option.Rel (fun value stored => value.equals stored = true) (map.value? key) (map'.value? key) := by
  have exact' := matchesExactly_keyMatch exact
  have found' : ∀ {key}, key.Within values → other.find? key = map'.value? key := fun known => reads'.find?_eq known
  replace reads' := reads'.represents
  rw [State.equals_iff]
  constructor
  · intro both key known
    obtain ⟨size, all⟩ := both
    have found : ∀ key value, key.Within values → map.value? key = some value →
        ∃ stored, map'.value? key = some stored ∧ value.equals stored = true := fun key value known present =>
      found' known ▸ all (key, value) ((reads.represents.mem_iff exact').mpr ⟨known, present⟩)
    cases here : map.value? key with
    | some value =>
      obtain ⟨stored, there, equal⟩ := found key value known here
      rw [there]
      exact .some equal
    | none =>
      cases there : map'.value? key with
      | none => exact .none
      | some stored =>
        have present : (map.value? key).isSome := by
          refine reads.represents.isSome_of_length_eq reads' exact' size ?_ known
            (Option.isSome_iff_exists.mpr ⟨_, there⟩)
          intro key known present
          obtain ⟨value, here⟩ := Option.isSome_iff_exists.mp present
          obtain ⟨stored, there, _⟩ := found key value known here
          exact Option.isSome_iff_exists.mpr ⟨stored, there⟩
        rw [here] at present
        cases present
  · intro related
    have same : map.keys values = map'.keys values := by
      ext key
      refine and_congr_right fun known => ?_
      have close := related key known
      generalize map.value? key = value at close ⊢
      generalize map'.value? key = stored at close ⊢
      cases close with
      | some _ => exact Iff.rfl
      | none => exact Iff.rfl
    constructor
    · rw [reads.size_eq exact, same]
      exact (reads'.length_eq exact').symm
    · intro entry member
      obtain ⟨known, found⟩ := (reads.represents.mem_iff exact').mp member
      have close := related entry.1 known
      rw [found, ← found' known] at close
      generalize other.find? entry.1 = stored at close ⊢
      cases close with
      | some equal => exact ⟨_, rfl, equal⟩

end State.ReadsAs

end Goap
