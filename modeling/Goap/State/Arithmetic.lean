import Goap.State.Copies
import Mathlib.Tactic.Tauto

namespace Goap

open FloatOps Foundation

variable {F : Type} [FloatOps F]

namespace StateValue

/-- `mul(const IStateValue::CNew &)` on the components; missing ones of the other
value are zeros. -/
def mulComponents : List F → List F → List F
  | [], _ => []
  | _ :: these, [] => lit 0 :: mulComponents these []
  | this :: these, other :: rest => this * other :: mulComponents these rest

def mul (value other : StateValue F) : StateValue F :=
  ⟨mulComponents value.data other.data⟩

theorem mulComponents_eq (these others : List F) : mulComponents these others =
    these.mapIdx fun i x => if inside : i < others.length then x * others[i] else lit 0 := by
  fun_induction mulComponents these others with
  | case1 others => rfl
  | case2 this these ih => simp [List.mapIdx_cons, ih]
  | case3 this these other rest ih => simp [List.mapIdx_cons, ih]

/-- The sum of two values is their product: the other one is no longer, its components
give the same sum as product, and the components beyond are 0. -/
def SumIsProduct (value other : StateValue F) : Prop :=
  other.size ≤ value.size ∧ (∀ pair ∈ value.data.zip other.data, pair.1 + pair.2 = pair.1 * pair.2) ∧
    ∀ x ∈ value.data.drop other.size, x = lit 0

theorem addComponents_eq_mulComponents_iff (these others : List F) :
    addComponents these others = mulComponents these others ↔ others.length ≤ these.length ∧
      (∀ pair ∈ these.zip others, pair.1 + pair.2 = pair.1 * pair.2) ∧
      ∀ x ∈ these.drop others.length, x = lit 0 := by
  induction these generalizing others with
  | nil => cases others <;> simp [addComponents, mulComponents]
  | cons this these ih =>
    cases others with
    | nil =>
      have tail := ih []
      simp only [addComponents, List.length_nil, Nat.zero_le, List.zip_nil_right, List.not_mem_nil, false_implies,
        implies_true, List.drop_zero, true_and] at tail
      simp [addComponents, mulComponents, tail]
    | cons other rest =>
      simp only [addComponents, mulComponents, List.cons.injEq, ih, List.length_cons, Nat.add_le_add_iff_right,
        List.zip_cons_cons, List.forall_mem_cons, List.drop_succ_cons, and_assoc]
      exact and_left_comm

theorem add_eq_mul_iff (value other : StateValue F) : value.add other = value.mul other ↔ value.SumIsProduct other := by
  rw [add, mul, mk.injEq]
  exact addComponents_eq_mulComponents_iff value.data other.data

end StateValue

theorem CachedValue.mul_eq (this : CachedValue F) (other : StateValue F) :
    this.mul other = .ok (new (this.value.mul other)) := by
  refine bind_eq_ok.mpr ⟨_, putEach_eq _ (Nat.le_refl _), ?_⟩
  have same : (this.value.data.mapIdx fun i x => if i < this.value.size then
      (if other.size ≤ i then lit 0 else x * other.atInt64 i) else x) =
        StateValue.mulComponents this.value.data other.data := by
    rw [StateValue.mulComponents_eq]
    apply List.ext_getElem
    · simp
    · intro i first _
      have bound : i < this.value.size := by simpa [StateValue.size] using first
      rw [List.getElem_mapIdx, List.getElem_mapIdx, if_pos bound]
      by_cases inside : i < other.data.length
      · rw [if_neg (by exact Nat.not_le.mpr inside), dif_pos inside, atInt64_eq inside]
      · rw [if_pos (by exact Nat.not_lt.mp inside), dif_neg inside]
  show Except.ok (touch _) = _
  simp only [touch, new, StateValue.mul, same]

namespace StoredState

variable {store : CellStore F} {state : StoredState F} {key current : Nat}

theorem find?_split (found : state.find? store key = some current) : ∃ before stored after,
    state.data = before ++ (stored, current) :: after ∧ (∀ entry ∈ before, store.fits key entry.1 = false) ∧
      store.fits key stored = true := by
  obtain ⟨entry, selected, rfl⟩ := Option.map_eq_some_iff.mp found
  obtain ⟨accepted, before, after, split, rejected⟩ := List.find?_eq_some_iff_append.mp selected
  exact ⟨before, entry.1, after, split, fun other member => by simpa using rejected other member, accepted⟩

end StoredState

namespace Foundation.HashedList

theorem insert_split {Key Value : Type} {fits : Key → Key → Bool} {probe stored : Key} {value previous : Value}
    {before after : List (Key × Value)} (rejected : ∀ entry ∈ before, fits probe entry.1 = false)
    (accepted : fits probe stored = true) :
    insert fits probe value (before ++ (stored, previous) :: after) = before ++ (stored, value) :: after := by
  induction before with
  | nil => simp [insert, accepted]
  | cons entry rest ih =>
    obtain ⟨first, others⟩ := List.forall_mem_cons.mp rejected
    simp [insert, first, ih others]

end Foundation.HashedList

namespace StoredState

variable {store : CellStore F} {state : StoredState F} {key current : Nat}

def restAddresses (before after : List (Nat × Nat)) (stored : Nat) : List Nat :=
  stored :: (before ++ after).flatMap fun entry => [entry.1, entry.2]

omit [FloatOps F] in
theorem count_eq_one_iff {before after : List (Nat × Nat)} {stored : Nat}
    (split : state.data = before ++ (stored, current) :: after) :
    state.addresses.count current = 1 ↔ current ∉ restAddresses before after stored := by
  have moved : state.addresses.Perm (current :: restAddresses before after stored) := by
    rw [addresses, split, List.flatMap_append, List.flatMap_cons, restAddresses, List.flatMap_append]
    exact (List.perm_append_comm_assoc _ _ _).trans (List.Perm.swap current stored _)
  rw [moved.count_eq, List.count_cons_self, ← List.count_eq_zero]
  omega

/-- Writing to the value that a key finds overwrites its entry exactly if it writes the
wanted value, and the object occurs nowhere else in the state or keeps its value. -/
theorem entries_set_iff (found : state.find? store key = some current) (written wanted : StateValue F) :
    state.entries (store.set current written) =
        HashedList.insert StateValue.keyMatch (store.cells key) wanted (state.entries store) ↔
      written = wanted ∧ (state.addresses.count current = 1 ∨ written = store.cells current) := by
  obtain ⟨before, stored, after, split, rejected, accepted⟩ := find?_split found
  have inserted : HashedList.insert StateValue.keyMatch (store.cells key) wanted (state.entries store) =
      before.map store.read ++ (store.cells stored, wanted) :: after.map store.read := by
    rw [entries, split, List.map_append, List.map_cons]
    have accepted' : StateValue.keyMatch (store.cells key) (store.cells stored) = true := accepted
    refine HashedList.insert_split ?_ accepted'
    intro entry member
    obtain ⟨address, inside, rfl⟩ := List.mem_map.mp member
    exact rejected address inside
  have set : state.entries (store.set current written) = before.map (store.set current written).read ++
      ((store.set current written).cells stored, written) :: after.map (store.set current written).read := by
    rw [entries, split, List.map_append, List.map_cons]
    exact congrArg (fun value => _ ++ (_, value) :: _) (CellStore.cells_set ..)
  have kept : CellStore.AgreeOn (restAddresses before after stored) store (store.set current written) ↔
      (state.addresses.count current = 1 ∨ written = store.cells current) := by
    rw [CellStore.agreeOn_set_iff, count_eq_one_iff split]
    tauto
  have apart : CellStore.AgreeOn (restAddresses before after stored) store (store.set current written) ↔
      (store.set current written).cells stored = store.cells stored ∧
        (before ++ after).map (store.set current written).read = (before ++ after).map store.read := by
    let others : StoredState F := { state with data := before ++ after }
    have agree : others.entries (store.set current written) = others.entries store ↔
        CellStore.AgreeOn others.addresses store (store.set current written) := entries_eq_iff
    rw [CellStore.AgreeOn, restAddresses, List.forall_mem_cons]
    exact and_congr_right' agree.symm
  rw [inserted, set, ← kept, apart, List.map_append, List.map_append]
  constructor
  · intro same
    obtain ⟨early, middle⟩ := List.append_inj same (by simp)
    obtain ⟨entry, late⟩ := List.cons.inj middle
    obtain ⟨sameKey, sameValue⟩ := Prod.ext_iff.mp entry
    exact ⟨sameValue, sameKey, by rw [early, late]⟩
  · intro both
    obtain ⟨sameValue, sameKey, others⟩ := both
    obtain ⟨early, late⟩ := List.append_inj others (by simp)
    rw [early, late, sameKey, sameValue]

end StoredState

namespace Execution

variable {this : Execution F} {key current : Nat}

/-- A call on a state has the effect that a value-level operation has on the entry of the
key: the entry is overwritten with its result, the other entries and the cost stay. -/
def Lifts (this : Execution F) (call : ExecutorCall F) (key : Nat) (result : StateValue F) : Prop :=
  ∃ after, this.step call = some after ∧ after.newState.entries after.store =
      HashedList.insert StateValue.keyMatch (this.store.cells key) result (this.newState.entries this.store) ∧
    after.newState.cost = this.newState.cost

/-- A call that adds, as `add` and `mul` do, has the wanted effect exactly if that is
the effect of adding, on one entry only. -/
theorem lifts_of_addTo {call : ExecutorCall F} {value : Nat} (adds : this.step call = this.addTo key value)
    (found : this.newState.find? this.store key = some current) (result : StateValue F) :
    this.Lifts call key result ↔ (this.store.cells current).add (this.store.cells value) = result ∧
      (this.newState.addresses.count current = 1 ∨
        (this.store.cells current).add (this.store.cells value) = this.store.cells current) := by
  rw [Lifts, adds, addTo, found, ← StoredState.entries_set_iff found]
  constructor
  · intro lifts
    obtain ⟨after, ran, same, _⟩ := lifts
    cases ran
    exact same
  · exact fun same => ⟨_, rfl, same, rfl⟩

/-- `State::add` and `State::mul` apply the operators of the value under the key, and
only to its entry, exactly if the sum is the product, and the value object occurs
nowhere else in the state or adding changes nothing in it. -/
theorem lifts_iff (this : Execution F) (key value current : Nat)
    (found : this.newState.find? this.store key = some current) :
    this.Lifts (.add key value) key ((this.store.cells current).add (this.store.cells value)) ∧
      this.Lifts (.mul key value) key ((this.store.cells current).mul (this.store.cells value)) ↔
    (this.store.cells current).SumIsProduct (this.store.cells value) ∧
      (this.newState.addresses.count current = 1 ∨
        (this.store.cells current).add (this.store.cells value) = this.store.cells current) := by
  have adds : this.step (.add key value) = this.addTo key value := rfl
  have muls : this.step (.mul key value) = this.addTo key value := rfl
  rw [lifts_of_addTo adds found, lifts_of_addTo muls found, StateValue.add_eq_mul_iff]
  tauto

/-- The key x, at address 2, has the value 2, at address 3. -/
def doubled (operand : ℚ) : Execution ℚ where
  store := ⟨fun address => if address = 2 then .ofString "x" else if address = 3 then .scalar 2 else .scalar operand,
    5, by decide⟩
  newState := ⟨[(2, 3)], 1, 0⟩
  values := []

/-- The sum of 2 and 2 is their product. -/
theorem lifts_doubled : (doubled 2).Lifts (.add 2 4) 2 (.scalar 4) ∧ (doubled 2).Lifts (.mul 2 4) 2 (.scalar 4) := by
  have found : (doubled 2).newState.find? (doubled 2).store 2 = some 3 := by decide +kernel
  have product : (StateValue.scalar (2 : ℚ)).SumIsProduct (.scalar 2) := by
    refine ⟨Nat.le_refl _, ?_, ?_⟩
    · intro pair member
      rw [List.mem_singleton.mp member]
      decide +kernel
    · intro x member
      cases member
  have sum : ((doubled 2).store.cells 3).add ((doubled 2).store.cells 4) = .scalar 4 := by decide +kernel
  have square : ((doubled 2).store.cells 3).mul ((doubled 2).store.cells 4) = .scalar 4 := by decide +kernel
  have lifts := (lifts_iff (doubled 2) 2 4 3 found).mpr ⟨product, .inl (by decide)⟩
  rwa [sum, square] at lifts

/-- `mul` by 3 leaves 5. -/
theorem lifts_fails : ¬ (doubled 3).Lifts (.mul 2 4) 2 ((StateValue.scalar 2).mul (.scalar 3)) := by
  intro lifts
  have found : (doubled 3).newState.find? (doubled 3).store 2 = some 3 := by decide +kernel
  have adds : (doubled 3).step (.mul 2 4) = (doubled 3).addTo 2 4 := rfl
  have sum := ((lifts_of_addTo adds found _).mp lifts).1
  exact absurd sum (by decide +kernel)

end Execution

end Goap
