import Mathlib.Data.Rat.Floor
import Mathlib.Algebra.Order.Floor.Ring

namespace Goap.Foundation

variable {K : Type*} [Ring K] [LinearOrder K] [IsStrictOrderedRing K] [FloorRing K] {x y : K}

/-- The integer part: the number without its fraction. -/
def truncate (x : K) : ℤ := if 0 ≤ x then ⌊x⌋ else ⌈x⌉

omit [IsStrictOrderedRing K] in
theorem truncate_of_nonneg (nonneg : 0 ≤ x) : truncate x = ⌊x⌋ := if_pos nonneg

theorem truncate_of_nonpos (nonpos : x ≤ 0) : truncate x = ⌈x⌉ := by
  rcases nonpos.lt_or_eq with negative | zero
  · exact if_neg negative.not_ge
  · simp [truncate, zero]

theorem truncate_mono (le : x ≤ y) : truncate x ≤ truncate y := by
  rcases le_total 0 x with nonneg | nonpos
  · rw [truncate_of_nonneg nonneg, truncate_of_nonneg (nonneg.trans le)]
    exact Int.floor_mono le
  · rcases le_total 0 y with nonneg | nonpos'
    · rw [truncate_of_nonpos nonpos, truncate_of_nonneg nonneg]
      exact (Int.ceil_le.mpr (by simpa using nonpos)).trans (Int.floor_nonneg.mpr nonneg)
    · rw [truncate_of_nonpos nonpos, truncate_of_nonpos nonpos']
      exact Int.ceil_mono le

theorem pos_of_truncate_pos (positive : 0 < truncate x) : 0 < x := by
  by_contra other
  have nonpos := not_lt.mp other
  rw [truncate_of_nonpos nonpos] at positive
  exact absurd (Int.ceil_le.mpr (by simpa using nonpos)) (not_le.mpr positive)

omit [IsStrictOrderedRing K] in
theorem neg_of_truncate_neg (negative : truncate x < 0) : x < 0 := by
  by_contra other
  have nonneg := not_lt.mp other
  rw [truncate_of_nonneg nonneg] at negative
  exact absurd (Int.floor_nonneg.mpr nonneg) (not_le.mpr negative)

theorem sub_lt_one_of_truncate_eq (same : truncate x = truncate y) (nonzero : truncate x ≠ 0) : x - y < 1 := by
  rcases lt_or_gt_of_ne nonzero with negative | positive
  · have left := truncate_of_nonpos (neg_of_truncate_neg negative).le
    have right := truncate_of_nonpos (neg_of_truncate_neg (same ▸ negative)).le
    have ceiling : (⌈x⌉ : K) = ⌈y⌉ := congrArg _ (left.symm.trans (same.trans right))
    have above := Int.le_ceil x
    have below := Int.ceil_lt_add_one y
    rw [ceiling] at above
    exact sub_lt_iff_lt_add'.mpr (above.trans_lt below)
  · have left := truncate_of_nonneg (pos_of_truncate_pos positive).le
    have right := truncate_of_nonneg (pos_of_truncate_pos (same ▸ positive)).le
    have floor : (⌊x⌋ : K) = ⌊y⌋ := congrArg _ (left.symm.trans (same.trans right))
    have above := Int.lt_floor_add_one x
    have below := Int.floor_le y
    rw [floor] at above
    exact sub_lt_iff_lt_add'.mpr (above.trans_le (by gcongr))

theorem truncate_rat (value : ℚ) : value.num.tdiv value.den = truncate value := by
  rcases le_total 0 value with nonneg | nonpos
  · rw [truncate_of_nonneg nonneg, Rat.floor_def', Int.tdiv_eq_ediv_of_nonneg (Rat.num_nonneg.mpr nonneg)]
  · have opposite : 0 ≤ -value.num := neg_nonneg.mpr (Rat.num_nonpos.mpr nonpos)
    rw [truncate_of_nonpos nonpos, Rat.ceil_def', ← Int.tdiv_eq_ediv_of_nonneg opposite, Int.neg_tdiv, neg_neg]

end Goap.Foundation
