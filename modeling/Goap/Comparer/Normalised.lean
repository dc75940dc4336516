import Goap.Comparer.ZeroDistance

namespace Goap

open FloatOps BasicMath Foundation

section

variable [RealBits]

/-- Numbers of the same sign differ by no more than the larger of them. -/
theorem floatSimilarity_le_one (x y : ℝ) : floatSimilarity x y ≤ 1 ↔ 0 ≤ x * y := by
  rw [floatSimilarity_real]
  split
  · rename_i positive
    rw [div_le_one positive]
    constructor
    · intro near
      by_contra opposite
      rcases mul_neg_iff.mp (not_le.mp opposite) with ⟨above, below⟩ | ⟨below, above⟩
      · rw [abs_of_pos above, abs_of_neg below, abs_of_pos (by linarith)] at near
        rcases le_max_iff.mp near with first | second <;> linarith
      · rw [abs_of_neg below, abs_of_pos above, abs_of_neg (by linarith)] at near
        rcases le_max_iff.mp near with first | second <;> linarith
    · intro alike
      rcases mul_nonneg_iff.mp alike with ⟨first, second⟩ | ⟨first, second⟩
      · rw [abs_of_nonneg first, abs_of_nonneg second]
        exact abs_sub_le_of_nonneg_of_le first (le_max_left x y) second (le_max_right x y)
      · rw [abs_of_nonpos first, abs_of_nonpos second, abs_sub_comm, ← neg_sub_neg]
        exact abs_sub_le_of_nonneg_of_le (by linarith) (le_max_left _ _) (by linarith) (le_max_right _ _)
  · rename_i flat
    have bound := not_lt.mp flat
    have zero := abs_nonpos_iff.mp ((le_max_left _ _).trans bound)
    simp [zero]

theorem cosine_nonneg_iff {pairs : List (ℝ × ℝ)} (positive : 0 < √(firstSquares pairs))
    (positive' : 0 < √(secondSquares pairs)) :
    0 ≤ dot pairs / (√(firstSquares pairs) * √(secondSquares pairs)) *
        (1 - floatSimilarity √(firstSquares pairs) √(secondSquares pairs)) ↔ 0 ≤ dot pairs := by
  have alike : 0 < min √(firstSquares pairs) √(secondSquares pairs) / max √(firstSquares pairs) √(secondSquares pairs) :=
    div_pos (lt_min positive positive') (lt_max_of_lt_left positive)
  rw [one_sub_floatSimilarity positive positive', mul_nonneg_iff_of_pos_right alike,
    le_div_iff₀ (mul_pos positive positive'), zero_mul]

namespace NumericStateComparer

/-- A key of both states adds at most 1 exactly when its values are not opposed. -/
theorem percentOf_le_one (valueSrc valueDst : StateValue ℝ) :
    percentOf valueSrc valueDst ≤ 1 ↔ 0 ≤ dot (valueSrc.common valueDst) := by
  unfold percentOf
  split
  · rename_i scalars
    obtain ⟨y, right⟩ := List.length_eq_one_iff.mp scalars.1
    obtain ⟨x, left⟩ := List.length_eq_one_iff.mp scalars.2
    simp [floatSimilarity_le_one, StateValue.atInt64, StateValue.common, dot, left, right]
  split
  · rw [cosineDistance_real]
    simp only [fmax_real, lit_real_zero, lit_real_one]
    rw [max_le_iff, and_iff_right zero_le_one, sub_le_self_iff]
    generalize valueSrc.common valueDst = pairs
    split
    · rename_i flat
      have none : dot pairs = 0 := by
        rcases mul_eq_zero.mp flat with first | second
        · exact dot_eq_zero (.inl ((Real.sqrt_eq_zero (sum_squares_nonneg Prod.fst pairs)).mp first))
        · exact dot_eq_zero (.inr ((Real.sqrt_eq_zero (sum_squares_nonneg Prod.snd pairs)).mp second))
      simp [none]
    · rename_i steep
      exact cosine_nonneg_iff (lt_of_le_of_ne (Real.sqrt_nonneg _) (left_ne_zero_of_mul steep).symm)
        (lt_of_le_of_ne (Real.sqrt_nonneg _) (right_ne_zero_of_mul steep).symm)
  · rename_i scalars both
    have none : valueSrc.common valueDst = [] := by
      apply List.eq_nil_of_length_eq_zero
      rw [StateValue.common, List.length_zip]
      simp only [StateValue.size] at both
      omega
    simp [none, lit_real_one, dot]

/-- The distance lies between 0 and 1, and no key of the goal adds more than it would to
the distance of a state that lacks it. -/
structure Normalised (stateSrc stateDst : State ℝ) : Prop where
  nonneg : 0 ≤ distance stateSrc stateDst
  le_one : distance stateSrc stateDst ≤ 1
  missing : ∀ entry ∈ stateDst.data, ∀ other : State ℝ, other.find? entry.1 = none →
    added stateSrc entry ≤ added other entry

/-- No value of the state points away from the goal's value under the same key: the
products of their common components do not add up to less than 0. -/
def Unopposed (stateSrc stateDst : State ℝ) : Prop :=
  ∀ entry ∈ stateDst.data, ∀ valueSrc, stateSrc.find? entry.1 = some valueSrc → 0 ≤ dot (valueSrc.common entry.2)

theorem added_le_one {stateSrc : State ℝ} {entry : StateValue ℝ × StateValue ℝ} : added stateSrc entry ≤ 1 ↔
    ∀ valueSrc, stateSrc.find? entry.1 = some valueSrc → 0 ≤ dot (valueSrc.common entry.2) := by
  unfold added
  cases stateSrc.find? entry.1 with
  | none => simp
  | some valueSrc => simp [percentOf_le_one]

theorem distance_nonneg (stateSrc stateDst : State ℝ) : 0 ≤ distance stateSrc stateDst := by
  rw [distance_eq_mean]
  apply div_nonneg _ (Nat.cast_nonneg _)
  apply List.sum_nonneg
  intro x member
  obtain ⟨entry, _, rfl⟩ := List.mem_map.mp member
  exact added_nonneg stateSrc entry

theorem distance_le_one {stateSrc stateDst : State ℝ} (unopposed : Unopposed stateSrc stateDst) :
    distance stateSrc stateDst ≤ 1 := by
  rw [distance_eq_mean]
  apply div_le_one_of_le₀ _ (Nat.cast_nonneg _)
  have bound := List.sum_le_card_nsmul (stateDst.data.map (added stateSrc)) 1
  rw [List.length_map, nsmul_one] at bound
  apply bound
  intro x member
  obtain ⟨entry, present, rfl⟩ := List.mem_map.mp member
  exact added_le_one.mpr (unopposed entry present)

/-- The distance is normalised exactly for states none of whose values is opposed to
the goal's. (Of an empty goal it would be 0 / 0.) -/
theorem normalised_iff (stateSrc stateDst : State ℝ) :
    Normalised stateSrc stateDst ↔ Unopposed stateSrc stateDst := by
  constructor
  · intro normalised entry member
    have lacking : (State.new : State ℝ).find? entry.1 = none := rfl
    have bound := normalised.missing entry member .new lacking
    rw [added_of_lacking lacking] at bound
    exact added_le_one.mp bound
  · intro unopposed
    refine ⟨distance_nonneg _ _, distance_le_one unopposed, ?_⟩
    intro entry member other lacking
    rw [added_of_lacking lacking]
    exact added_le_one.mpr (unopposed entry member)

end NumericStateComparer

end

namespace NumericStateComparer

/-- A number is at distance 2 from its negative. -/
theorem normalised_fails :
    letI := wholeBits
    distance (holding [1]) (holding [-1]) = 2 ∧ ¬ Normalised (holding [1]) (holding [-1]) := by
  let _ := wholeBits
  have flags : ∀ x ∈ [(1 : ℝ)], IsFlag x := fun x member => .inr (List.mem_singleton.mp member)
  have found : ∀ entry ∈ (holding [-1]).data, Finds (fun value _ => value = ⟨[1]⟩) (holding [1]) entry :=
    (finds_holding flags).mpr rfl
  rw [data_holding, List.forall_mem_singleton] at found
  obtain ⟨value, present, rfl⟩ := found
  have two : added (holding [1]) (.scalar 0, ⟨[-1]⟩) = 2 := by
    have number : percentOf (⟨[1]⟩ : StateValue ℝ) ⟨[-1]⟩ = floatSimilarity 1 (-1) := if_pos ⟨rfl, rfl⟩
    rw [added, present]
    dsimp only
    rw [number, floatSimilarity_real]
    norm_num
  have far : distance (holding [1]) (holding [-1]) = 2 := by
    rw [distance_eq_mean, State.size, data_holding]
    simp [two]
  refine ⟨far, fun normalised => ?_⟩
  have bound := normalised.le_one
  rw [far] at bound
  norm_num at bound

end NumericStateComparer

end Goap
