import Goap.Value.FloatOps
import Mathlib.Algebra.Order.Floor.Ring
import Mathlib.Analysis.Real.Sqrt

namespace Goap

open FloatOps

/-- What stands for a real number: the bits that are hashed and the integer of a
cast. No distance depends on them. -/
class RealBits where
  toInt64 : ℝ → Int64
  bits : ℝ → UInt32

open Classical in
noncomputable instance [RealBits] : FloatOps ℝ where
  lit value := value
  abs value := |value|
  sqrt := Real.sqrt
  isnan _ := false
  eq first second := decide (first = second)
  lt first second := decide (first < second)
  le first second := decide (first ≤ second)
  toInt64 := RealBits.toInt64
  bits := RealBits.bits

section

variable [RealBits]

theorem le_real (x y : ℝ) : FloatOps.le x y = true ↔ x ≤ y := decide_eq_true_iff

theorem lit_real_intCast (n : ℤ) : (lit (n : ℚ) : ℝ) = n := Rat.cast_intCast n

theorem lit_real_natCast (n : ℕ) : (lit (n : ℚ) : ℝ) = n := Rat.cast_natCast n

theorem lit_real_zero : (lit 0 : ℝ) = 0 := Rat.cast_zero

theorem lit_real_one : (lit 1 : ℝ) = 1 := Rat.cast_one

theorem lit_real_two : (lit 2 : ℝ) = 2 := Rat.cast_ofNat 2

theorem lit_real_half : (lit (1 / 2) : ℝ) = 1 / 2 := by
  show ((1 / 2 : ℚ) : ℝ) = _
  norm_num

theorem lit_real_threeHalves : (lit (3 / 2) : ℝ) = 3 / 2 := by
  show ((3 / 2 : ℚ) : ℝ) = _
  norm_num

end

/-- Casts as they are, and the bits of the whole part. -/
@[reducible] noncomputable def wholeBits : RealBits where
  toInt64 x := Int64.ofIntClamp (if 0 ≤ x then ⌊x⌋ else ⌈x⌉)
  bits x := (float32OfRat ⌊x⌋).toBits

theorem toInt64_wholeBits {x : ℝ} (nonneg : 0 ≤ x) :
    letI := wholeBits
    (toInt64 x).toInt = min ⌊x⌋ (2 ^ 63 - 1) := by
  have least : Int64.minValue.toInt ≤ ⌊x⌋ := by
    rw [Int64.toInt_minValue]
    exact le_trans (by norm_num) (Int.floor_nonneg.mpr nonneg)
  show (Int64.ofIntClamp (if 0 ≤ x then ⌊x⌋ else ⌈x⌉)).toInt = _
  rw [if_pos nonneg]
  by_cases inside : ⌊x⌋ ≤ Int64.maxValue.toInt
  · rw [Int64.toInt_ofIntClamp least inside]
    rw [Int64.toInt_maxValue] at inside
    exact (min_eq_left inside).symm
  · rw [Int64.ofIntClamp, dif_pos least, dif_neg inside]
    rw [Int64.toInt_maxValue] at inside ⊢
    exact (min_eq_right (not_le.mp inside).le).symm

end Goap
