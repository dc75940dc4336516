import Mathlib.Algebra.Order.BigOperators.Group.List
import Mathlib.Algebra.Order.Field.Basic
import Mathlib.Tactic.Ring
import Mathlib.Tactic.Linarith

namespace Goap.Foundation

variable {R : Type} [Field R]

def dot (pairs : List (R × R)) : R := (pairs.map fun pair => pair.1 * pair.2).sum

def firstSquares (pairs : List (R × R)) : R := (pairs.map fun pair => pair.1 * pair.1).sum

def secondSquares (pairs : List (R × R)) : R := (pairs.map fun pair => pair.2 * pair.2).sum

theorem inner_fold (pairs : List (R × R)) (temp fa fb : R) :
    pairs.foldl (fun (temp, fa, fb) (va, vb) => (temp + va * vb, fa + va * va, fb + vb * vb)) (temp, fa, fb) =
      (temp + dot pairs, fa + firstSquares pairs, fb + secondSquares pairs) := by
  induction pairs generalizing temp fa fb with
  | nil => simp [dot, firstSquares, secondSquares]
  | cons pair rest ih =>
    rw [List.foldl_cons, ih]
    simp only [dot, firstSquares, secondSquares, List.map_cons, List.sum_cons, ← add_assoc]

theorem sum_difference_squares (pairs : List (R × R)) :
    (pairs.map fun pair => (pair.1 - pair.2) * (pair.1 - pair.2)).sum =
      firstSquares pairs + secondSquares pairs - 2 * dot pairs := by
  induction pairs with
  | nil => simp [dot, firstSquares, secondSquares]
  | cons pair rest ih =>
    simp only [dot, firstSquares, secondSquares, List.map_cons, List.sum_cons] at ih ⊢
    rw [ih]
    ring

theorem squares_of_equal {pairs : List (R × R)} (equal : ∀ pair ∈ pairs, pair.1 = pair.2) :
    firstSquares pairs = dot pairs ∧ secondSquares pairs = dot pairs := by
  constructor
  · exact congrArg List.sum (List.map_congr_left fun pair member => by rw [equal pair member])
  · exact congrArg List.sum (List.map_congr_left fun pair member => by rw [equal pair member])

variable [LinearOrder R] [IsStrictOrderedRing R]

theorem sum_squares_nonneg {α : Type} (f : α → R) (items : List α) :
    0 ≤ (items.map fun item => f item * f item).sum := by
  apply List.sum_nonneg
  intro x member
  obtain ⟨item, _, rfl⟩ := List.mem_map.mp member
  exact mul_self_nonneg (f item)

theorem eq_zero_of_sum_squares {α : Type} {f : α → R} {items : List α}
    (small : (items.map fun item => f item * f item).sum ≤ 0) : ∀ item ∈ items, f item = 0 := by
  induction items with
  | nil =>
    intro item absent
    cases absent
  | cons head rest ih =>
    rw [List.map_cons, List.sum_cons] at small
    have first := mul_self_nonneg (f head)
    have others := sum_squares_nonneg f rest
    intro item member
    rcases List.mem_cons.mp member with same | later
    · rw [same]
      exact mul_self_eq_zero.mp (le_antisymm (by linarith) first)
    · exact ih (by linarith) item later

theorem firstSquares_pos {pairs : List (R × R)} {pair : R × R} (member : pair ∈ pairs) (nonzero : pair.1 ≠ 0) :
    0 < firstSquares pairs := by
  apply lt_of_le_of_ne (sum_squares_nonneg Prod.fst pairs)
  intro zero
  exact nonzero (eq_zero_of_sum_squares zero.symm.le pair member)

theorem dot_eq_zero {pairs : List (R × R)} (flat : firstSquares pairs = 0 ∨ secondSquares pairs = 0) :
    dot pairs = 0 := by
  apply List.sum_eq_zero
  intro product member
  obtain ⟨pair, present, rfl⟩ := List.mem_map.mp member
  rcases flat with first | second
  · rw [eq_zero_of_sum_squares first.le pair present, zero_mul]
  · rw [eq_zero_of_sum_squares second.le pair present, mul_zero]

theorem equal_of_squares_le_dot {pairs : List (R × R)} (first : firstSquares pairs ≤ dot pairs)
    (second : secondSquares pairs ≤ dot pairs) : ∀ pair ∈ pairs, pair.1 = pair.2 := by
  have small : (pairs.map fun pair => (pair.1 - pair.2) * (pair.1 - pair.2)).sum ≤ 0 := by
    rw [sum_difference_squares]
    linarith
  intro pair member
  exact sub_eq_zero.mp (eq_zero_of_sum_squares (f := fun pair : R × R => pair.1 - pair.2) small pair member)

end Goap.Foundation
