import Goap.Foundation.Pointwise
import Goap.State.SameEntries
import Goap.Value.CachedValue
import Mathlib.Data.List.Lex
import Mathlib.Tactic.Linarith
import Mathlib.Tactic.NormNum

namespace Goap.StateValue

open FloatOps BasicMath Foundation

theorem floatEqual_iff (x y : ℚ) :
    floatEqual x y = true ↔ |x - y| ≤ 1 / 2 ^ 23 * (|x| + |y|) * 2 ∨ |x - y| < 1 / 2 ^ 126 := by
  show (decide _ || decide _) = true ↔ _
  rw [Bool.or_eq_true, decide_eq_true_iff, decide_eq_true_iff]
  rfl

theorem floatEqual_self (x : ℚ) : floatEqual x x = true := by
  rw [floatEqual_iff]
  right
  norm_num

theorem floatEqual_comm (x y : ℚ) : floatEqual x y = floatEqual y x := by
  rw [Bool.eq_iff_iff, floatEqual_iff, floatEqual_iff, abs_sub_comm, add_comm |x|]

/-- Distinct values further apart than the tolerance compare exactly, as the integers
below 2^20 do. -/
theorem exactOn_integers : ExactOn fun x : ℚ => ∃ n : ℤ, x = n ∧ |n| < 2 ^ 20 := by
  intro x y left right
  obtain ⟨n, rfl, small⟩ := left
  obtain ⟨m, rfl, small'⟩ := right
  rw [floatEqual_iff]
  constructor
  · intro near
    by_contra different
    have apart : (1 : ℚ) ≤ |(n : ℚ) - m| := by
      rw [← Int.cast_sub, ← Int.cast_abs]
      exact_mod_cast Int.one_le_abs (sub_ne_zero.mpr fun same => different (congrArg _ same))
    have bound : |(n : ℚ)| ≤ 2 ^ 20 := by
      rw [← Int.cast_abs]
      exact_mod_cast small.le
    have bound' : |(m : ℚ)| ≤ 2 ^ 20 := by
      rw [← Int.cast_abs]
      exact_mod_cast small'.le
    rcases near with relative | tiny
    · norm_num at relative bound bound'
      linarith
    · norm_num at tiny
      linarith
  · intro same
    left
    rw [same]
    norm_num

theorem equals_iff_forall₂ (a b : StateValue ℚ) :
    a.equals b = true ↔ List.Forall₂ (fun x y => floatEqual x y = true) a.data b.data := by
  simp only [equals, size, Bool.and_eq_true, beq_iff_eq, List.all_eq_true, List.forall₂_iff_zip, Prod.forall]

theorem lessComponents_iff (these others : List ℚ) : lessComponents these others = true ↔ these < others := by
  induction these generalizing others with
  | nil => cases others <;> simp [lessComponents]
  | cons this these ih =>
    cases others with
    | nil => simp [lessComponents]
    | cons other others =>
      have head : lt this other = true ↔ this < other := decide_eq_true_iff
      have below : lt other this = true ↔ other < this := decide_eq_true_iff
      rw [lessComponents, Bool.or_eq_true, Bool.and_eq_true, Bool.not_eq_true', ← Bool.not_eq_true, head, below, ih,
        List.cons_lt_cons_iff]
      constructor
      · intro less
        rcases less with first | ⟨notAbove, later⟩
        · exact .inl first
        · rcases (not_lt.mp notAbove).lt_or_eq with first | same
          · exact .inl first
          · exact .inr ⟨same, later⟩
      · intro less
        rcases less with first | ⟨same, later⟩
        · exact .inl first
        · exact .inr ⟨same.le.not_gt, later⟩

theorem lessThan_iff (a b : StateValue ℚ) : a.lessThan b = true ↔ a.data < b.data :=
  lessComponents_iff a.data b.data

theorem equals_self (a : StateValue ℚ) : a.equals a = true :=
  (equals_iff_forall₂ a a).mpr (List.forall₂_same.mpr fun x _ => floatEqual_self x)

theorem equals_comm (a b : StateValue ℚ) : a.equals b = b.equals a := by
  have symmetric : ∀ x y : ℚ, floatEqual x y = true → floatEqual y x = true := fun x y near => by
    rwa [floatEqual_comm]
  rw [Bool.eq_iff_iff, equals_iff_forall₂, equals_iff_forall₂]
  exact ⟨forall₂_symm symmetric, forall₂_symm symmetric⟩

def Trichotomous (a b : StateValue ℚ) : Prop :=
  ExactlyOne (a.lessThan b = true) (a.equals b = true) (b.lessThan a = true)

theorem trichotomous_iff (a b : StateValue ℚ) : Trichotomous a b ↔ (a.equals b = true → a = b) := by
  obtain ⟨these⟩ := a
  obtain ⟨others⟩ := b
  let Equal (left right : List ℚ) : Prop := (⟨left⟩ : StateValue ℚ).equals ⟨right⟩ = true
  have reflexive : ∀ data, Equal data data := fun data => equals_self ⟨data⟩
  rw [Trichotomous, lessThan_iff, lessThan_iff, mk.injEq]
  exact exactlyOne_iff reflexive these others

theorem within_scalar {values : ℚ → Prop} {x : ℚ} (own : values x) : (scalar x).Within values := by
  intro y member
  rwa [List.mem_singleton.mp member]

/-- Order and equality are a trichotomy on values of some floats exactly if
`floatEqual` tells these floats apart. -/
theorem trichotomous_within_iff (values : ℚ → Prop) :
    (∀ a b : StateValue ℚ, a.Within values → b.Within values → Trichotomous a b) ↔ ExactOn values := by
  constructor
  · intro each x y left right
    constructor
    · intro near
      have equal : (scalar x).equals (scalar y) = true :=
        (equals_iff_forall₂ _ _).mpr (.cons near .nil)
      have same := (trichotomous_iff _ _).mp (each _ _ (within_scalar left) (within_scalar right)) equal
      simpa [scalar] using same
    · intro same
      rw [same]
      exact floatEqual_self y
  · intro exact a b left right
    rw [trichotomous_iff]
    exact (equals_iff exact left right).mp

theorem equals_trans_iff (values : ℚ → Prop) :
    (∀ a b c : StateValue ℚ, a.Within values → b.Within values → c.Within values →
      a.equals b = true → b.equals c = true → a.equals c = true) ↔
    ∀ x y z, values x → values y → values z → floatEqual x y = true → floatEqual y z = true →
      floatEqual x z = true := by
  refine Iff.trans ?_ forall₂_trans_on_iff
  constructor
  · intro each left middle right lefts middles rights first second
    rw [← equals_iff_forall₂ ⟨left⟩ ⟨middle⟩] at first
    rw [← equals_iff_forall₂ ⟨middle⟩ ⟨right⟩] at second
    exact (equals_iff_forall₂ ⟨left⟩ ⟨right⟩).mp (each _ _ _ lefts middles rights first second)
  · intro each a b c left middle right first second
    rw [equals_iff_forall₂] at first second ⊢
    exact each _ _ _ left middle right first second

/-- Equality is reflexive and symmetric and the order a strict total one. They are a
trichotomy of two values unless these are different and count as equal. On values of
given floats equality is transitive exactly if `floatEqual` is on the floats, and
the trichotomy holds exactly if `floatEqual` tells the floats apart, as it does integers. -/
theorem equality_laws :
    (∀ a : StateValue ℚ, a.equals a = true) ∧
    (∀ a b : StateValue ℚ, a.equals b = b.equals a) ∧
    (∀ a b c : StateValue ℚ, a.lessThan b = true → b.lessThan c = true → a.lessThan c = true) ∧
    (∀ a b : StateValue ℚ, ExactlyOne (a.lessThan b = true) (a = b) (b.lessThan a = true)) ∧
    (∀ a b : StateValue ℚ, Trichotomous a b ↔ (a.equals b = true → a = b)) ∧
    (∀ values : ℚ → Prop,
      ((∀ a b c : StateValue ℚ, a.Within values → b.Within values → c.Within values →
        a.equals b = true → b.equals c = true → a.equals c = true) ↔
      ∀ x y z, values x → values y → values z → floatEqual x y = true → floatEqual y z = true →
        floatEqual x z = true) ∧
      ((∀ a b : StateValue ℚ, a.Within values → b.Within values → Trichotomous a b) ↔ ExactOn values)) ∧
    ExactOn fun x : ℚ => ∃ n : ℤ, x = n ∧ |n| < 2 ^ 20 := by
  refine ⟨equals_self, equals_comm, ?_, ?_, trichotomous_iff, ?_, exactOn_integers⟩
  · intro a b c first second
    rw [lessThan_iff] at first second ⊢
    exact first.trans second
  · intro a b
    obtain ⟨these⟩ := a
    obtain ⟨others⟩ := b
    rw [lessThan_iff, lessThan_iff, mk.injEq]
    exact (exactlyOne_iff Eq.refl these others).mpr id
  · intro values
    exact ⟨equals_trans_iff values, trichotomous_within_iff values⟩

/-- Steps of 2^-21 from 1: each equals the next and is less than it, the first does not
equal the third. -/
theorem equality_laws_fail :
    (scalar (1 : ℚ)).equals (scalar (1 + 1 / 2 ^ 21)) = true ∧
    (scalar (1 + 1 / 2 ^ 21 : ℚ)).equals (scalar (1 + 2 / 2 ^ 21)) = true ∧
    (scalar (1 : ℚ)).equals (scalar (1 + 2 / 2 ^ 21)) = false ∧
    (scalar (1 : ℚ)).lessThan (scalar (1 + 1 / 2 ^ 21)) = true := by
  decide +kernel

end Goap.StateValue
