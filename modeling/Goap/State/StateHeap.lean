import Goap.Foundation.Run
import Goap.State.CellStore
import Goap.State.ReadAsMap
import Mathlib.Data.Fintype.Basic

/-! States that share their value objects, as `put`, `assign` and `merge` make them, and when each of
them still is a finite map of its own. -/

namespace Goap

open FloatOps Foundation

open scoped Classical

variable {F : Type} [FloatOps F] {n : Nat} {values : F → Prop}

/-- Some states, and a store with all value objects that are ever given to them. -/
structure StateHeap (F : Type) (n : Nat) where
  store : CellStore F
  states : Fin n → StoredState F

namespace StoredState

/-- `equals(const IState::CPtr &)`. -/
def equals (store : CellStore F) (state other : StoredState F) : Bool :=
  state.data.length == other.data.length && state.data.all fun entry =>
    match other.find? store entry.1 with
    | none => false
    | some value => (store.cells entry.2).equals (store.cells value)

end StoredState

namespace StateHeap

/-- All states are new. -/
def new (store : CellStore F) : StateHeap F n := ⟨store, fun _ => .new⟩

def setState (this : StateHeap F n) (id : Fin n) (state : StoredState F) : StateHeap F n :=
  { this with states := Function.update this.states id state }

/-- `*_data[key] += *value`, in `add` and in `mul`. -/
def addTo (this : StateHeap F n) (id : Fin n) (key value : Nat) : Option (StateAnswer F × StateHeap F n) :=
  ((this.states id).find? this.store key).map fun current =>
    (.done, { this with
      store := this.store.set current ((this.store.cells current).add (this.store.cells value)) }.setState id
        { this.states id with cachedHash := 0 })

/-- One call on a state; `none` where a null pointer is dereferenced. -/
def step (this : StateHeap F n) :
    Fin n × StateOperation F Nat (Fin n) → Option (StateAnswer F × StateHeap F n)
  | (id, .put key value) => some (.done, this.setState id ((this.states id).put this.store key value))
  | (id, .add key value) => this.addTo id key value
  | (id, .mul key value) => this.addTo id key value
  | (id, .remove key) => some (.done, this.setState id ((this.states id).remove this.store key))
  | (id, .assign (some other)) => some (.done, this.setState id { this.states other with cachedHash := 0 })
  | (_, .assign none) => some (.threw (.runtimeError "assign"), this)
  | (id, .assignMap pairs) =>
    some (.done, this.setState id (StoredState.putAll this.store { this.states id with data := [] } pairs))
  | (id, .merge other) => some (.done, this.setState id ((this.states id).putAll this.store (this.states other).data))
  | (id, .cost cost) => some (.done, this.setState id ((this.states id).setCost cost))
  | (id, .addCost cost) => some (.done, this.setState id ((this.states id).setCost ((this.states id).cost + cost)))
  | (id, .mulCost cost) => some (.done, this.setState id ((this.states id).setCost ((this.states id).cost * cost)))
  | (id, .clear) => some (.done, this.setState id .new)
  | (id, .getCost) => some (.number (this.states id).cost, this)
  | (id, .size) => some (.size (this.states id).data.length, this)
  | (id, .empty) => some (.truth (this.states id).data.isEmpty, this)
  | (id, .keys) => some (.keys (((this.states id).entries this.store).map Prod.fst), this)
  | (id, .find key) => some (.value (((this.states id).find? this.store key).map this.store.cells), this)
  | (id, .atInt64 idx) =>
    if idx < 0 ∨ ((this.states id).data.length : Int) ≤ idx then
      some (.pair (⟨[]⟩, ⟨[]⟩), { this with store := this.store.set nullValue ⟨[]⟩ })
    else some (.pair (((this.states id).entries this.store).getD idx.toNat (⟨[]⟩, ⟨[]⟩)), this)
  | (id, .iterator) => some (.pairs ((this.states id).entries this.store), this)
  | (id, .equals other) => some (.truth ((this.states id).equals this.store (this.states other)), this)
  | (id, .hash) =>
    let hash := (this.states id).hash this.store
    some (.hash hash, this.setState id { this.states id with cachedHash := hash })

/-- A value object stands in one place of one state only. -/
def Alone (this : StateHeap F n) (id : Fin n) (address : Nat) : Prop :=
  (this.states id).addresses.count address = 1 ∧ ∀ other, other ≠ id → address ∉ (this.states other).addresses

/-- The value object that `add` and `mul` write to. -/
def addsTo (this : StateHeap F n) : Fin n × StateOperation F Nat (Fin n) → Option Nat
  | (id, .add key _) | (id, .mul key _) => (this.states id).find? this.store key
  | _ => none

/-- Whether `at(int64_t)` clears the static null value. -/
def clearsNull (this : StateHeap F n) : Fin n × StateOperation F Nat (Fin n) → Bool
  | (id, .atInt64 idx) => idx < 0 ∨ ((this.states id).data.length : Int) ≤ idx
  | _ => false

/-- No other entry shares what a call writes to. -/
structure WritesAlone (this : StateHeap F n) (call : Fin n × StateOperation F Nat (Fin n)) : Prop where
  alone : ∀ current ∈ this.addsTo call, this.Alone call.1 current
  null : this.clearsNull call = true → ∀ other, nullValue ∉ (this.states other).addresses

def reading (this : StateHeap F n) (maps : Fin n → StateMap F) (call : Fin n × StateOperation F Nat (Fin n)) :
    Fin n × StateOperation F (StateValue F) (StateMap F) :=
  (call.1, call.2.map this.store.cells maps)

/-- The call writes to no shared value object, and its keys belong to the given floats. -/
structure Allowed (values : F → Prop) (this : StateHeap F n) (call : Fin n × StateOperation F Nat (Fin n)) : Prop where
  writes : this.WritesAlone call
  keys : ∀ key ∈ call.2.givenKeys, (this.store.cells key).Within values

instance (this : StateHeap F n) (id : Fin n) (address : Nat) : Decidable (this.Alone id address) := instDecidableAnd

instance (this : StateHeap F n) (call : Fin n × StateOperation F Nat (Fin n)) : Decidable (this.WritesAlone call) :=
  decidable_of_iff ((∀ current ∈ this.addsTo call, this.Alone call.1 current) ∧
    (this.clearsNull call = true → ∀ other, nullValue ∉ (this.states other).addresses))
    ⟨fun both => ⟨both.1, both.2⟩, fun writes => ⟨writes.alone, writes.null⟩⟩

instance [DecidablePred values] (this : StateHeap F n) (call : Fin n × StateOperation F Nat (Fin n)) :
    Decidable (this.Allowed values call) :=
  decidable_of_iff (this.WritesAlone call ∧ ∀ key ∈ call.2.givenKeys, (this.store.cells key).Within values)
    ⟨fun both => ⟨both.1, both.2⟩, fun allowed => ⟨allowed.writes, allowed.keys⟩⟩

end StateHeap

namespace StateMap

noncomputable def stepAt (maps : Fin n → StateMap F) (call : Fin n × StateOperation F (StateValue F) (StateMap F)) :
    Option (Fin n → StateMap F) := ((maps call.1).step call.2).map (Function.update maps call.1)

def AnswersAt (values : F → Prop) (maps : Fin n → StateMap F)
    (call : Fin n × StateOperation F (StateValue F) (StateMap F)) (answer : StateAnswer F) : Prop :=
  (maps call.1).Answers values call.2 answer

end StateMap

namespace StoredState

variable {store : CellStore F} {stored other : StoredState F} {state : State F}

/-- The value objects of some entries. -/
def addressesOf (data : List (Nat × Nat)) : List Nat := data.flatMap fun entry => [entry.1, entry.2]

/-- Writing to the value that is found, which stands in no other place, is storing a value. -/
theorem map_read_set {key current : Nat} {data : List (Nat × Nat)} (value : StateValue F)
    (found : HashedList.lookup store.fits key data = some current) (alone : (addressesOf data).count current = 1) :
    data.map (store.set current value).read =
      HashedList.insert StateValue.keyMatch (store.cells key) value (data.map store.read) := by
  induction data with
  | nil => cases found
  | cons entry rest ih =>
    have split : (addressesOf [entry]).count current + (addressesOf rest).count current = 1 := by
      rw [← List.count_append]
      exact alone
    rw [HashedList.lookup_cons] at found
    rw [List.map_cons, List.map_cons, HashedList.insert]
    show _ = if store.fits key entry.1 = true then _ else _
    by_cases fits : store.fits key entry.1 = true
    · rw [if_pos fits, Option.some.injEq] at found
      subst found
      have once : (addressesOf [entry]).count entry.2 = if entry.1 = entry.2 then 2 else 1 := by
        show [entry.1, entry.2].count entry.2 = _
        rw [List.count_cons, List.count_singleton_self]
        split_ifs <;> simp_all
      have apart : entry.1 ≠ entry.2 := by
        intro same
        rw [if_pos same] at once
        omega
      rw [if_neg apart] at once
      have nowhere : entry.2 ∉ addressesOf rest := List.count_eq_zero.mp (by omega)
      rw [if_pos fits, map_read_eq_iff.mpr (CellStore.agreeOn_set nowhere)]
      congr 1
      exact Prod.ext (Function.update_of_ne apart _ _) (Function.update_self ..)
    · rw [if_neg fits] at found
      obtain ⟨key', member, _⟩ := HashedList.lookup_mem found
      have later : 0 < (addressesOf rest).count current :=
        List.count_pos_iff.mpr (List.mem_flatMap.mpr ⟨_, member, by simp⟩)
      have nowhere : current ∉ addressesOf [entry] := List.count_eq_zero.mp (by omega)
      have same : [entry].map (store.set current value).read = [entry].map store.read :=
        map_read_eq_iff.mpr (CellStore.agreeOn_set nowhere)
      rw [if_neg fits, ih found (by omega)]
      exact congrArg (· :: _) (List.cons.inj same).1

theorem Represents.set {key current : Nat} (represents : Represents store stored state) (value : StateValue F)
    (found : stored.find? store key = some current) (alone : stored.addresses.count current = 1) :
    Represents (store.set current value) stored (state.put (store.cells key) value) where
  entries := (map_read_set value found alone).trans
    (congrArg (HashedList.insert StateValue.keyMatch _ _) represents.entries)
  cost := represents.cost

theorem Represents.size (represents : Represents store stored state) : stored.data.length = state.size := by
  rw [State.size, ← represents.entries, StoredState.entries, List.length_map]

theorem Represents.equals {state' : State F} (represents : Represents store stored state)
    (represents' : Represents store other state') : stored.equals store other = state.equals state' := by
  rw [StoredState.equals, State.equals, represents.size, represents'.size]
  congr 1
  rw [← represents.entries, StoredState.entries, List.all_map]
  congr 1
  funext entry
  simp only [Function.comp_apply, CellStore.read, Prod.map, ← represents'.find?]
  cases other.find? store entry.1 <;> rfl

end StoredState

namespace StateHeap

variable {this : StateHeap F n} {maps : Fin n → StateMap F} {id : Fin n}

/-- Each state reads as its map. -/
def Reads (values : F → Prop) (this : StateHeap F n) (maps : Fin n → StateMap F) : Prop :=
  ∀ id, ∃ state : State F, StoredState.Represents this.store (this.states id) state ∧ state.ReadsAs values (maps id)

theorem reads_new (store : CellStore F) : (new store : StateHeap F n).Reads values fun _ => .new :=
  fun _ => ⟨.new, StoredState.represents_new store, .nil, rfl⟩

theorem Reads.update (reads : this.Reads values maps) {store : CellStore F} {stored : StoredState F} {state : State F}
    {map : StateMap F} (others : ∀ other, other ≠ id → CellStore.AgreeOn (this.states other).addresses this.store store)
    (represents : StoredState.Represents store stored state) (reads' : state.ReadsAs values map) :
    StateHeap.Reads values ⟨store, Function.update this.states id stored⟩ (Function.update maps id map) := by
  intro other
  by_cases same : other = id
  · subst same
    simp only [Function.update_self]
    exact ⟨state, represents, reads'⟩
  · obtain ⟨old, represents, reads'⟩ := reads other
    simp only [Function.update_of_ne same]
    exact ⟨old, represents.of_agreeOn (others other same), reads'⟩

theorem Reads.setState (reads : this.Reads values maps) {stored : StoredState F} {state : State F} {map : StateMap F}
    (represents : StoredState.Represents this.store stored state) (reads' : state.ReadsAs values map) :
    (this.setState id stored).Reads values (Function.update maps id map) :=
  reads.update (fun _ _ => .refl _ _) represents reads'

theorem Reads.same (reads : this.Reads values maps) : this.Reads values (Function.update maps id (maps id)) := by
  rwa [Function.update_eq_self]

theorem Reads.setOutside (reads : this.Reads values maps) {address : Nat} (value : StateValue F)
    (outside : ∀ other, address ∉ (this.states other).addresses) :
    StateHeap.Reads values { this with store := this.store.set address value } maps := by
  intro other
  obtain ⟨state, represents, reads'⟩ := reads other
  exact ⟨state, represents.of_agreeOn (CellStore.agreeOn_set (outside other)), reads'⟩

/-- `add` and `mul` write to the value of their own key only, and are undefined exactly where it has none. -/
theorem Reads.addTo (reads : this.Reads values maps) (exact : ExactOn values) {key value : Nat}
    (known : (this.store.cells key).Within values)
    (alone : ∀ current ∈ (this.states id).find? this.store key, this.Alone id current) :
    this.addTo id key value = none ∧ (maps id).value? (this.store.cells key) = none ∨
      ∃ this' read, this.addTo id key value = some (.done, this') ∧ (maps id).value? (this.store.cells key) = some read ∧
        this'.Reads values (Function.update maps id
          ((maps id).set (this.store.cells key) (some (read.add (this.store.cells value))))) := by
  obtain ⟨state, represents, reads'⟩ := reads id
  have read := represents.find? key
  rw [reads'.find?_eq known] at read
  unfold StateHeap.addTo
  cases found : (this.states id).find? this.store key with
  | none =>
    rw [found] at read
    exact .inl ⟨rfl, read.symm⟩
  | some current =>
    rw [found] at read
    obtain ⟨once, others⟩ := alone current found
    refine .inr ⟨_, _, rfl, read.symm, ?_⟩
    have summed := represents.set ((this.store.cells current).add (this.store.cells value)) found once
    exact reads.update (fun other apart => CellStore.agreeOn_set (others other apart)) ⟨summed.entries, summed.cost⟩
      (reads'.put exact known _)

/-- One call on states that read as maps. -/
theorem step_reads (exact : ExactOn values) (reads : this.Reads values maps)
    {call : Fin n × StateOperation F Nat (Fin n)} (allowed : this.Allowed values call) :
    this.step call = none ∧ StateMap.stepAt maps (this.reading maps call) = none ∨
      ∃ answer this' maps', this.step call = some (answer, this') ∧
        StateMap.stepAt maps (this.reading maps call) = some maps' ∧
        StateMap.AnswersAt values maps (this.reading maps call) answer ∧ this'.Reads values maps' := by
  obtain ⟨⟨alone, null⟩, keyed⟩ := allowed
  obtain ⟨id, operation⟩ := call
  obtain ⟨state, represents, reads'⟩ := reads id
  cases operation with
  | put key value =>
    have known := keyed key List.mem_cons_self
    exact .inr ⟨_, _, _, rfl, rfl, rfl, reads.setState (represents.put key value) (reads'.put exact known _)⟩
  | add key value | mul key value =>
    rcases reads.addTo exact (keyed key List.mem_cons_self) alone with ⟨undefined, none⟩ | ⟨this', read, ran, there, next⟩
    · exact .inl ⟨undefined, by simp only [StateMap.stepAt, reading, StateOperation.map, StateMap.step, none, Option.map_none]⟩
    · refine .inr ⟨.done, this', _, ran, ?_, rfl, next⟩
      simp only [StateMap.stepAt, reading, StateOperation.map, StateMap.step, there, Option.map_some]
  | remove key =>
    have known := keyed key List.mem_cons_self
    have erased := reads'.represents.erase (matchesExactly_keyMatch exact) known
    exact .inr ⟨_, _, _, rfl, rfl, rfl, reads.setState (represents.remove key) ⟨erased, reads'.cost⟩⟩
  | assign other =>
    cases other with
    | none => exact .inr ⟨_, _, _, rfl, rfl, rfl, reads.same⟩
    | some other =>
      obtain ⟨state', represents', copied⟩ := reads other
      exact .inr ⟨_, _, _, rfl, rfl, rfl, reads.setState ⟨represents'.entries, represents'.cost⟩ copied⟩
  | assignMap pairs =>
    have empty : StoredState.Represents this.store { this.states id with data := [] } ⟨[], state.cost, .nil⟩ :=
      ⟨rfl, represents.cost⟩
    have nothing : State.ReadsAs values ⟨[], state.cost, .nil⟩ { maps id with value? := fun _ => none } := ⟨.nil, reads'.cost⟩
    refine .inr ⟨_, _, _, rfl, rfl, rfl, reads.setState (empty.putAll pairs) (nothing.putAll exact ?_)⟩
    intro pair member
    obtain ⟨given, inside, rfl⟩ := List.mem_map.mp member
    exact keyed given.1 (List.mem_map_of_mem inside)
  | merge other =>
    obtain ⟨state', represents', copied⟩ := reads other
    have merged := represents.putAll (this.states other).data
    rw [← StoredState.entries, represents'.entries] at merged
    exact .inr ⟨_, _, _, rfl, rfl, rfl, reads.setState merged (reads'.merge exact copied)⟩
  | cost cost =>
    exact .inr ⟨_, _, _, rfl, rfl, rfl, reads.setState (represents.setCost cost) ⟨reads'.represents, rfl⟩⟩
  | addCost cost =>
    have same : (this.states id).cost = (maps id).cost := represents.cost.trans reads'.cost
    exact .inr ⟨_, _, _, rfl, rfl, rfl, reads.setState (represents.setCost _) ⟨reads'.represents, congrArg (· + cost) same⟩⟩
  | mulCost cost =>
    have same : (this.states id).cost = (maps id).cost := represents.cost.trans reads'.cost
    exact .inr ⟨_, _, _, rfl, rfl, rfl, reads.setState (represents.setCost _) ⟨reads'.represents, congrArg (· * cost) same⟩⟩
  | clear => exact .inr ⟨_, _, _, rfl, rfl, rfl, reads.setState (StoredState.represents_new _) ⟨.nil, rfl⟩⟩
  | getCost =>
    exact .inr ⟨_, _, _, rfl, rfl, congrArg StateAnswer.number (represents.cost.trans reads'.cost), reads.same⟩
  | size =>
    exact .inr ⟨_, _, _, rfl, rfl, congrArg StateAnswer.size (represents.size.trans (reads'.size_eq exact)), reads.same⟩
  | empty =>
    have same : (this.states id).data.isEmpty = state.data.isEmpty := by
      rw [← represents.entries, StoredState.entries, List.isEmpty_map]
    exact .inr ⟨_, _, _, rfl, rfl, ⟨_, rfl, same ▸ reads'.isEmpty_iff exact⟩, reads.same⟩
  | keys =>
    have nodup := reads'.represents.nodup (matchesExactly_keyMatch exact)
    rw [← represents.entries] at nodup
    exact .inr ⟨_, _, _, rfl, rfl, ⟨_, rfl, nodup, represents.entries ▸ reads'.mem_keys exact⟩, reads.same⟩
  | find key =>
    have found := (represents.find? key).trans (reads'.find?_eq (keyed key List.mem_cons_self))
    exact .inr ⟨_, _, _, rfl, rfl, congrArg StateAnswer.value found, reads.same⟩
  | atInt64 idx =>
    have answered := reads'.atInt64_spec exact idx
    rw [State.atInt64, ← represents.size, ← represents.entries] at answered
    by_cases outside : idx < 0 ∨ ((this.states id).data.length : Int) ≤ idx
    · rw [if_pos outside] at answered
      have unseen := reads.setOutside ⟨[]⟩ (null (decide_eq_true outside))
      exact .inr ⟨_, _, _, if_pos outside, rfl, ⟨_, rfl, answered⟩, unseen.same⟩
    · rw [if_neg outside] at answered
      exact .inr ⟨_, _, _, if_neg outside, rfl, ⟨_, rfl, answered⟩, reads.same⟩
  | iterator =>
    have nodup := reads'.represents.nodup (matchesExactly_keyMatch exact)
    rw [← represents.entries] at nodup
    refine .inr ⟨_, _, _, rfl, rfl, ⟨_, rfl, nodup, ?_⟩, reads.same⟩
    intro key value
    rw [represents.entries]
    exact reads'.represents.mem_iff (matchesExactly_keyMatch exact)
  | equals other =>
    obtain ⟨state', represents', read⟩ := reads other
    exact .inr ⟨_, _, _, rfl, rfl, ⟨_, rfl, represents.equals represents' ▸ reads'.equals_iff exact read⟩, reads.same⟩
  | hash => exact .inr ⟨_, _, _, rfl, rfl, ⟨_, rfl⟩, reads.setState ⟨represents.entries, represents.cost⟩ reads'⟩

/-- In every run from new states, whatever objects they share, each state answers as a map of its own that
the same calls make, as long as keys compare exactly and no call writes to a value that is shared. -/
theorem runs_as_maps (exact : ExactOn values) (store : CellStore F) (calls : List (Fin n × StateOperation F Nat (Fin n)))
    (allowed : AllCalls step (Allowed values) (new store) calls) :
    RunsTogether step reading StateMap.stepAt (StateMap.AnswersAt values) (new store) (fun _ => .new) calls :=
  runsTogether_of_step (fun this maps => this.Reads values maps)
    (fun _ _ _ reads allowed => step_reads exact reads allowed) (reads_new store) allowed

def flagStore : CellStore ℚ := ⟨fun address => .scalar (if address < 3 then 0 else 1), 8, by decide⟩

def flagCalls : List (Fin 2 × StateOperation ℚ Nat (Fin 2)) :=
  [(0, .put 2 3), (1, .assign (some 0)), (0, .equals 1), (1, .remove 2), (0, .add 2 4), (0, .atInt64 1), (1, .add 2 4)]

theorem runs_as_maps_flag :
    RunsTogether step reading StateMap.stepAt (StateMap.AnswersAt IsBit) (new flagStore) (fun _ => .new) flagCalls :=
  runs_as_maps exactOn_isBit flagStore flagCalls (by decide +kernel)

end StateHeap

end Goap
