import Mathlib.Data.List.Forall2
import Mathlib.Order.Lattice

namespace Goap.Foundation

/-- One of three statements holds and the others do not. -/
def ExactlyOne (first second third : Prop) : Prop :=
  first ∧ ¬ second ∧ ¬ third ∨ ¬ first ∧ second ∧ ¬ third ∨ ¬ first ∧ ¬ second ∧ third

theorem exactlyOne_iff {α : Type*} [LinearOrder α] {Equal : α → α → Prop} (reflexive : ∀ a, Equal a a) (a b : α) :
    ExactlyOne (a < b) (Equal a b) (b < a) ↔ (Equal a b → a = b) := by
  rcases lt_trichotomy a b with below | rfl | above
  · simp [ExactlyOne, below, below.not_gt, below.ne]
  · simp [ExactlyOne, reflexive]
  · simp [ExactlyOne, above, above.not_gt, above.ne']

section

variable {α : Type*} {R : α → α → Prop} {values : α → Prop}

theorem forall₂_symm (symmetric : ∀ x y, R x y → R y x) {left right : List α} (aligned : List.Forall₂ R left right) :
    List.Forall₂ R right left :=
  (aligned.imp symmetric).flip

theorem forall₂_trans_on (transitive : ∀ x y z, values x → values y → values z → R x y → R y z → R x z)
    {left middle right : List α} (lefts : ∀ x ∈ left, values x) (middles : ∀ x ∈ middle, values x)
    (rights : ∀ x ∈ right, values x) (first : List.Forall₂ R left middle) (second : List.Forall₂ R middle right) :
    List.Forall₂ R left right := by
  induction first generalizing right with
  | nil => exact second
  | cons related _ ih =>
    cases second with
    | cons related' later =>
      rw [List.forall_mem_cons] at lefts middles rights
      exact .cons (transitive _ _ _ lefts.1 middles.1 rights.1 related related')
        (ih lefts.2 middles.2 rights.2 later)

theorem forall₂_trans_on_iff :
    (∀ left middle right : List α, (∀ x ∈ left, values x) → (∀ x ∈ middle, values x) → (∀ x ∈ right, values x) →
      List.Forall₂ R left middle → List.Forall₂ R middle right → List.Forall₂ R left right) ↔
    ∀ x y z, values x → values y → values z → R x y → R y z → R x z := by
  constructor
  · intro lists x y z left middle right first second
    have single := lists [x] [y] [z] (by simpa using left) (by simpa using middle) (by simpa using right)
      (.cons first .nil) (.cons second .nil)
    cases single with
    | cons related _ => exact related
  · intro transitive left middle right lefts middles rights first second
    exact forall₂_trans_on transitive lefts middles rights first second

end

end Goap.Foundation
