import Goap.State.HashContract

/-! States read as finite maps: the same entries in any iteration order. On
values that `floatEqual` compares exactly this is what `equals` decides. -/

namespace Goap

open FloatOps Foundation

variable {F : Type} [FloatOps F] {values : F → Prop}

/-- Floats on which `floatEqual` is exact equality. -/
def ExactOn (values : F → Prop) : Prop :=
  ∀ x y, values x → values y → (BasicMath.floatEqual x y = true ↔ x = y)

namespace StateValue

/-- Every component belongs to the given floats. -/
def Within (values : F → Prop) (value : StateValue F) : Prop := ∀ x ∈ value.data, values x

instance [DecidablePred values] (value : StateValue F) : Decidable (value.Within values) :=
  inferInstanceAs (Decidable (∀ x ∈ value.data, values x))

private theorem zip_all_iff (exact : ExactOn values) (these others : List F)
    (left : ∀ x ∈ these, values x) (right : ∀ x ∈ others, values x) :
    (these.length = others.length ∧
      ∀ pair ∈ these.zip others, BasicMath.floatEqual pair.1 pair.2 = true) ↔ these = others := by
  induction these generalizing others with
  | nil => cases others <;> simp
  | cons this these ih =>
    cases others with
    | nil => simp
    | cons other others =>
      have head := exact this other (left this (by simp)) (right other (by simp))
      have tail := ih others (fun x member => left x (by simp [member]))
        (fun x member => right x (by simp [member]))
      simp only [List.length_cons, Nat.add_right_cancel_iff, List.zip_cons_cons, List.mem_cons,
        forall_eq_or_imp, List.cons.injEq, head, ← tail]
      exact and_left_comm

theorem equals_iff (exact : ExactOn values) {value other : StateValue F}
    (left : value.Within values) (right : other.Within values) :
    value.equals other = true ↔ value = other := by
  simp only [equals, size, Bool.and_eq_true, beq_iff_eq, List.all_eq_true]
  rw [zip_all_iff exact value.data other.data left right]
  cases value
  cases other
  simp

theorem keyMatch_iff (exact : ExactOn values) {probe stored : StateValue F}
    (left : probe.Within values) (right : stored.Within values) :
    keyMatch probe stored = true ↔ probe = stored := by
  simp only [keyMatch, Bool.and_eq_true, beq_iff_eq, equals_iff exact left right]
  exact ⟨And.right, fun same => ⟨by rw [same], same⟩⟩

end StateValue

def IsBit (x : ℚ) : Prop := x = 0 ∨ x = 1

instance : DecidablePred IsBit := fun x => inferInstanceAs (Decidable (x = 0 ∨ x = 1))

theorem exactOn_isBit : ExactOn IsBit := by
  rintro x y (rfl | rfl) (rfl | rfl) <;> decide +kernel

theorem isBit_scalar : (StateValue.scalar (0 : ℚ)).Within IsBit ∧ (StateValue.scalar (1 : ℚ)).Within IsBit := by
  simp [StateValue.Within, StateValue.scalar, IsBit]

namespace State

/-- Every component of every key and value belongs to the given floats. -/
def Within (values : F → Prop) (state : State F) : Prop :=
  ∀ entry ∈ state.data, entry.1.Within values ∧ entry.2.Within values

theorem within_new : (new : State F).Within values := by
  intro entry member
  cases member

def SameEntries (state other : State F) : Prop := state.data.Perm other.data

theorem SameEntries.refl (state : State F) : state.SameEntries state := List.Perm.refl _

theorem SameEntries.symm {state other : State F} (same : state.SameEntries other) :
    other.SameEntries state := List.Perm.symm same

theorem SameEntries.trans {first second third : State F} (left : first.SameEntries second)
    (right : second.SameEntries third) : first.SameEntries third := List.Perm.trans left right

theorem SameEntries.within {state other : State F} (same : state.SameEntries other)
    (within : other.Within values) : state.Within values :=
  fun entry member => within entry (same.mem_iff.mp member)

theorem keysAgree (exact : ExactOn values) {state other : State F} (left : state.Within values)
    (right : other.Within values) : KeysAgree state other := by
  intro first firstMember second secondMember stored storedMember one two
  have own := (StateValue.keyMatch_iff exact (left first firstMember).1 (right stored storedMember).1).mp one
  have another := (StateValue.keyMatch_iff exact (left second secondMember).1 (right stored storedMember).1).mp two
  exact (StateValue.keyMatch_iff exact (left second secondMember).1 (left first firstMember).1).mpr
    (another.trans own.symm)

theorem keys_apart (exact : ExactOn values) {state : State F} (within : state.Within values) :
    state.data.Pairwise fun earlier later => earlier.1 ≠ later.1 := by
  apply state.distinct.imp_of_mem
  intro earlier later first second distinct same
  rw [(StateValue.keyMatch_iff exact (within _ second).1 (within _ first).1).mpr same.symm] at distinct
  cases distinct

theorem nodup (exact : ExactOn values) {state : State F} (within : state.Within values) :
    state.data.Nodup :=
  (keys_apart exact within).imp fun apart same => apart (congrArg Prod.fst same)

theorem find?_eq_some_iff (exact : ExactOn values) {state : State F} (within : state.Within values)
    {key value : StateValue F} (inside : key.Within values) :
    state.find? key = some value ↔ (key, value) ∈ state.data := by
  constructor
  · intro selected
    obtain ⟨stored, member, fits⟩ := HashedList.lookup_mem selected
    have same := (StateValue.keyMatch_iff exact inside (within _ member).1).mp fits
    exact same ▸ member
  · intro member
    have found := HashedList.lookup_of_mem state.distinct member
      ((StateValue.keyMatch_iff exact inside inside).mpr rfl)
    exact found

theorem SameEntries.find?_eq (exact : ExactOn values) {state other : State F} (same : state.SameEntries other)
    (within : state.Within values) {key : StateValue F} (inside : key.Within values) :
    state.find? key = other.find? key := by
  apply Option.ext
  intro value
  rw [find?_eq_some_iff exact within inside, find?_eq_some_iff exact (same.symm.within within) inside]
  exact same.mem_iff

/-- On exact values `equals` decides whether two states have the same entries. -/
theorem equals_iff_sameEntries (exact : ExactOn values) {state other : State F}
    (left : state.Within values) (right : other.Within values) :
    state.equals other = true ↔ state.SameEntries other := by
  rw [equals_iff]
  constructor
  · intro ⟨size, found⟩
    apply (List.subperm_of_subset (nodup exact left) _).perm_of_length_le (Nat.le_of_eq size.symm)
    intro entry member
    obtain ⟨value, selected, same⟩ := found entry member
    have stored := (find?_eq_some_iff exact right (left entry member).1).mp selected
    have sameValue : entry.2 = value :=
      (StateValue.equals_iff exact (left entry member).2 (right _ stored).2).mp same
    rwa [← sameValue] at stored
  · intro same
    refine ⟨same.length_eq, ?_⟩
    intro entry member
    have stored := same.mem_iff.mp member
    exact ⟨entry.2, (find?_eq_some_iff exact right (left entry member).1).mpr stored,
      (StateValue.equals_iff exact (left entry member).2 (right _ stored).2).mpr rfl⟩

theorem SameEntries.hash_eq {state other : State F} (same : state.SameEntries other)
    (cost : state.cost = other.cost) : state.hash = other.hash := by
  rw [hash_eq_storedHash, hash_eq_storedHash]
  unfold keyWord payloadWord
  rw [cost, xorWords_perm (same.map _), xorWords_perm (same.map _)]

/-- Same entries at the same cost: one state to every container keyed by states. -/
theorem SameEntries.keyMatch (exact : ExactOn values) {state other : State F}
    (same : state.SameEntries other) (within : other.Within values)
    (cost : state.cost = other.cost) : State.keyMatch state other = true := by
  have equal := (equals_iff_sameEntries exact (same.within within) within).mpr same
  simp [State.keyMatch, same.hash_eq cost, equal]

/-- States with the same entries and the same cost. -/
structure Alike (state other : State F) : Prop where
  same : state.SameEntries other
  cost : state.cost = other.cost

theorem Alike.refl (state : State F) : Alike state state := ⟨.refl state, rfl⟩

theorem Alike.symm {state other : State F} (alike : Alike state other) : Alike other state :=
  ⟨alike.same.symm, alike.cost.symm⟩

theorem Alike.trans {first second third : State F} (one : Alike first second) (two : Alike second third) :
    Alike first third :=
  ⟨one.same.trans two.same, one.cost.trans two.cost⟩

theorem Within.put {state : State F} (within : state.Within values) {key value : StateValue F}
    (keyWithin : key.Within values) (valueWithin : value.Within values) :
    (state.put key value).Within values := by
  intro entry member
  rcases HashedList.mem_insert member with previous | ⟨own, stored⟩
  · exact within entry previous
  · refine ⟨?_, own ▸ valueWithin⟩
    rcases stored with same | ⟨previous, present, same⟩
    · exact same ▸ keyWithin
    · exact same ▸ (within previous present).1

theorem SameEntries.put (exact : ExactOn values) {state other : State F} (same : state.SameEntries other)
    (within : state.Within values) {key : StateValue F} (keyWithin : key.Within values) (value : StateValue F) :
    (state.put key value).SameEntries (other.put key value) := by
  apply HashedList.insert_perm same (keys_apart exact within)
  intro entry member
  exact StateValue.keyMatch_iff exact keyWithin (within entry member).1

end State

end Goap
