import Goap.Value.CachedValue

namespace Goap

open FloatOps BasicMath Foundation

variable {F : Type} [FloatOps F]

def StateValue.padTo (value : StateValue F) (len : Nat) : StateValue F :=
  ⟨value.data ++ List.replicate (len - value.size) (lit 0)⟩

inductive ValueOperator where
  | add
  | mul
  | and_logic
  | or_logic
deriving DecidableEq

namespace ValueOperator

/-- What the operator makes of a component, where the other value has one too. -/
def combine (x y : F) : ValueOperator → F
  | .add => x + y
  | .mul => x * y
  | .and_logic => ofBool (!eq x (lit 0) && !eq y (lit 0))
  | .or_logic => ofBool (!eq x (lit 0) || !eq y (lit 0))

/-- What it makes of a component beyond the end of the other value. -/
def alone (x : F) : ValueOperator → F
  | .add => x
  | .mul => lit 0
  | .and_logic => lit 0
  | .or_logic => x

def components (operator : ValueOperator) (these others : List F) : List F :=
  these.mapIdx fun i x => if inside : i < others.length then operator.combine x others[i] else operator.alone x

end ValueOperator

namespace CachedValue

def apply (this : CachedValue F) (other : StateValue F) : ValueOperator → Except Failure (CachedValue F)
  | .add => this.add other
  | .mul => this.mul other
  | .and_logic => this.and_logic other
  | .or_logic => this.or_logic other

variable {this : CachedValue F} {other : StateValue F}

theorem loop_eq {count : Nat} (next : Nat → F → F) (bound : count ≤ this.value.size) :
    (do let this ← this.putEach count next; return this.touch) =
      Except.ok (new ⟨this.value.data.mapIdx fun i x => if i < count then next i x else x⟩) :=
  bind_eq_ok.mpr ⟨_, putEach_eq next bound, rfl⟩

/-- With an operand that is no longer, the four operators differ in what they make of a
component only. -/
theorem apply_eq (operator : ValueOperator) (short : other.size ≤ this.value.size) :
    this.apply other operator = .ok (new ⟨operator.components this.value.data other.data⟩) := by
  have read : ∀ {i : Nat} (inside : i < other.data.length), other.atInt64 i = other.data[i] := atInt64_eq
  have room : this.grow other.size = .ok this := by rw [grow, if_neg (Nat.not_lt.mpr short)]
  have same : ∀ loop : Nat → F → F, (∀ i x, i < this.value.data.length →
      loop i x = if inside : i < other.data.length then operator.combine x other.data[i] else operator.alone x) →
      this.value.data.mapIdx loop = operator.components this.value.data other.data := by
    intro loop agree
    exact List.mapIdx_eq_mapIdx_iff.mpr fun i bound => agree i _ bound
  cases operator with
  | add =>
    show (this.grow other.size >>= fun this => _) = _
    rw [room]
    refine (loop_eq _ short).trans (congrArg (fun data => Except.ok (new ⟨data⟩)) (same _ ?_))
    intro i x _
    by_cases inside : i < other.data.length
    · simp [StateValue.size, inside, read inside, ValueOperator.combine]
    · simp [StateValue.size, inside, ValueOperator.alone]
  | mul =>
    refine (loop_eq _ le_rfl).trans (congrArg (fun data => Except.ok (new ⟨data⟩)) (same _ ?_))
    intro i x bound
    by_cases inside : i < other.data.length
    · simp [StateValue.size, bound, inside, read inside, ValueOperator.combine]
    · simp [StateValue.size, bound, inside, ValueOperator.alone, Nat.not_lt.mp inside]
  | and_logic =>
    refine (loop_eq _ le_rfl).trans (congrArg (fun data => Except.ok (new ⟨data⟩)) (same _ ?_))
    intro i x bound
    by_cases inside : i < other.data.length
    · simp [StateValue.size, bound, inside, read inside, ValueOperator.combine]
    · simp [StateValue.size, bound, inside, ValueOperator.alone, Nat.not_lt.mp inside]
  | or_logic =>
    refine (loop_eq _ (min_le_left _ _)).trans (congrArg (fun data => Except.ok (new ⟨data⟩)) (same _ ?_))
    intro i x bound
    by_cases inside : i < other.data.length
    · simp [StateValue.size, bound, inside, read inside, ValueOperator.combine]
    · simp [StateValue.size, bound, inside, ValueOperator.alone]

omit [FloatOps F] in
theorem mem_drop_iff_getElem {data : List F} {skipped : Nat} {good : F → Prop} :
    (∀ x ∈ data.drop skipped, good x) ↔ ∀ i (bound : i < data.length), skipped ≤ i → good data[i] := by
  constructor
  · intro all i bound beyond
    exact all _ (List.mem_drop_iff_getElem.mpr ⟨i - skipped, by omega, by congr 1; omega⟩)
  · intro all x member
    obtain ⟨i, bound, rfl⟩ := List.mem_drop_iff_getElem.mp member
    exact all (skipped + i) (by omega) (Nat.le_add_right _ _)

/-- Zeros may be appended exactly if the operator makes of each component beyond the
operand what it makes of it with a zero. -/
theorem components_padTo_iff (operator : ValueOperator) {these others : List F} (short : others.length ≤ these.length) :
    operator.components these others =
        operator.components these (others ++ List.replicate (these.length - others.length) (lit 0)) ↔
      ∀ x ∈ these.drop others.length, operator.alone x = operator.combine x (lit 0) := by
  have filled : (others ++ List.replicate (these.length - others.length) (lit 0 : F)).length = these.length := by
    rw [List.length_append, List.length_replicate]
    omega
  rw [mem_drop_iff_getElem, ValueOperator.components, ValueOperator.components, List.mapIdx_eq_mapIdx_iff]
  apply forall_congr'
  intro i
  apply forall_congr'
  intro bound
  rw [dif_pos (bound.trans_eq filled.symm)]
  by_cases inside : i < others.length
  · rw [dif_pos inside, List.getElem_append_left inside]
    simp [Nat.not_le.mpr inside]
  · rw [dif_neg inside, List.getElem_append_right (Nat.not_lt.mp inside), List.getElem_replicate]
    simp [Nat.not_lt.mp inside]

theorem apply_padTo_iff (operator : ValueOperator) :
    this.apply other operator = this.apply (other.padTo this.value.size) operator ↔
      ∀ x ∈ this.value.data.drop other.size, operator.alone x = operator.combine x (lit 0) := by
  by_cases short : other.size ≤ this.value.size
  · have filled : (other.padTo this.value.size).size ≤ this.value.size := by
      simp only [StateValue.size, StateValue.padTo, List.length_append, List.length_replicate] at short ⊢
      omega
    rw [apply_eq operator short, apply_eq operator filled]
    have both := components_padTo_iff operator short
    simpa [new, StateValue.padTo, StateValue.size] using both
  · have whole : other.padTo this.value.size = other := by
      have none : this.value.size - other.size = 0 := by omega
      simp [StateValue.padTo, none]
    have nothing : this.value.data.drop other.size = [] := List.drop_eq_nil_of_le (Nat.le_of_not_le short)
    rw [whole, nothing]
    simp

end CachedValue

/-- What `float` arithmetic does with 0 and 1. -/
class ZeroAndOne (F : Type) [FloatOps F] : Prop where
  zero_add_zero : (lit 0 + lit 0 : F) = lit 0
  one_add_zero : (lit 1 + lit 0 : F) = lit 1
  zero_mul_zero : (lit 0 * lit 0 : F) = lit 0
  one_mul_zero : (lit 1 * lit 0 : F) = lit 0
  zero_eq_zero : eq (lit 0 : F) (lit 0) = true
  one_ne_zero : eq (lit 1 : F) (lit 0) = false

instance : ZeroAndOne Float32 := by
  constructor <;> decide +kernel

instance : ZeroAndOne ℚ := by
  constructor <;> decide +kernel

namespace CachedValue

/-- All four operators take the missing components of an operand for zeros exactly if the
components that they would meet are 0 or 1: `or_logic` leaves those as they are. -/
theorem missing_components_iff [ZeroAndOne F] (this : CachedValue F) (other : StateValue F) :
    (∀ operator, this.apply other operator = this.apply (other.padTo this.value.size) operator) ↔
      ∀ x ∈ this.value.data.drop other.size, x = lit 0 ∨ x = lit 1 := by
  have zero : eq (lit 0 : F) (lit 0) = true := ZeroAndOne.zero_eq_zero
  have one : eq (lit 1 : F) (lit 0) = false := ZeroAndOne.one_ne_zero
  constructor
  · intro all x member
    have normal : x = ofBool (!eq x (lit 0) || !eq (lit 0 : F) (lit 0)) :=
      (apply_padTo_iff .or_logic).mp (all .or_logic) x member
    rw [normal]
    cases !eq x (lit 0) || !eq (lit 0 : F) (lit 0) with
    | false => exact .inl rfl
    | true => exact .inr rfl
  · intro flags operator
    apply (apply_padTo_iff operator).mpr
    intro x member
    obtain rfl | rfl := flags x member
    · cases operator with
      | add => exact ZeroAndOne.zero_add_zero.symm
      | mul => exact ZeroAndOne.zero_mul_zero.symm
      | and_logic => simp [ValueOperator.alone, ValueOperator.combine, zero, ofBool]
      | or_logic => simp [ValueOperator.alone, ValueOperator.combine, zero, ofBool]
    · cases operator with
      | add => exact ZeroAndOne.one_add_zero.symm
      | mul => exact ZeroAndOne.one_mul_zero.symm
      | and_logic => simp [ValueOperator.alone, ValueOperator.combine, zero, ofBool]
      | or_logic => simp [ValueOperator.alone, ValueOperator.combine, zero, one, ofBool]

/-- A value of a 1 takes a missing component for a 0. -/
theorem missing_components_one :
    (new (.scalar (1 : ℚ))).apply ⟨[]⟩ .or_logic = (new (.scalar (1 : ℚ))).apply ⟨[0]⟩ .or_logic := by
  have flags : ∀ x ∈ [(1 : ℚ)], x = lit 0 ∨ x = lit 1 := by
    intro x member
    exact .inr (List.mem_singleton.mp member)
  exact (missing_components_iff (new (.scalar (1 : ℚ))) ⟨[]⟩).mpr flags .or_logic

theorem missing_components_of_ne {operator : ValueOperator} (other_than : operator ≠ .or_logic) (this : CachedValue ℚ)
    (other : StateValue ℚ) : this.apply other operator = this.apply (other.padTo this.value.size) operator := by
  apply (apply_padTo_iff operator).mpr
  intro x _
  cases operator with
  | add => exact (add_zero x).symm
  | mul => exact (mul_zero x).symm
  | and_logic => simp [ValueOperator.alone, ValueOperator.combine, ofBool, FloatOps.eq, FloatOps.lit]
  | or_logic => exact absurd rfl other_than

/-- The 2 stays a 2, and becomes a 1 with a zero. -/
theorem missing_components_fails : ¬ ∀ (this : CachedValue ℚ) (other : StateValue ℚ) (operator : ValueOperator),
    other.size < this.value.size →
      this.apply other operator = this.apply (other.padTo this.value.size) operator := by
  intro all
  have same := all (new (.scalar 2)) ⟨[]⟩ .or_logic (by decide)
  have kept := (apply_padTo_iff .or_logic).mp same 2 (List.mem_singleton.mpr rfl)
  exact absurd kept (by decide +kernel)

end CachedValue

end Goap
