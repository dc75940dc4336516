import Goap.Value.CachedValue
import Goap.Value.RealOps
import Mathlib.Tactic.LinearCombination

namespace Goap

open FloatOps BasicMath

theorem BasicMath.interp2array_eq_mapM {F : Type} [FloatOps F] (a : List F) (m : ℕ) : interp2array a m =
    (List.range m).mapM fun (j : ℕ) =>
      interp2 (lit (j : ℚ) * (lit (((a.length : ℤ) - 1 : ℤ) : ℚ) / lit (((m : ℤ) - 1 : ℤ) : ℚ))) a := by
  have places : (do let j ← List.range m; pure (j : ℚ)) = (List.range m).map Nat.cast := by
    rw [bind_pure_comp, List.map_eq_map]
  rw [interp2array, places, List.mapM_map]
  rfl

section

attribute [local instance] wholeBits

namespace BasicMath

variable {a : List ℝ} {x : ℝ}

theorem subscript_eq {i : ℤ} (nonneg : 0 ≤ i) (inside : i < a.length) : subscript a i = some (a.getD i.toNat 0) := by
  have bound : i.toNat < a.length := by omega
  rw [subscript, if_neg (not_lt.mpr nonneg), List.getD_eq_getElem?_getD, List.getElem?_eq_getElem bound, Option.getD_some]

theorem parabola_eq {t : ℝ} (f_1 f0 f1 : ℝ) (above : -1 ≤ t) (below : t ≤ 1) :
    parabola t f_1 f0 f1 = f0 + t * (f1 - f_1) / 2 + t ^ 2 * (f1 + f_1 - 2 * f0) / 2 := by
  have minus : (lit (-1) : ℝ) = -1 := by exact_mod_cast lit_real_intCast (-1)
  simp only [parabola, le_real, minus, lit_real_one, lit_real_two]
  split
  · rename_i low
    obtain rfl : t = -1 := le_antisymm low above
    ring
  · split
    · rename_i high
      obtain rfl : t = 1 := le_antisymm below high
      ring
    · ring

theorem lit_sub_one (a : List ℝ) : (lit (((a.length : ℤ) - 1 : ℤ) : ℚ) : ℝ) = a.length - 1 := by
  rw [lit_real_intCast]
  push_cast
  rfl

theorem interp1_low (entries : 0 < a.length) (low : x ≤ 0) : interp1 x a = some (a.getD 0 0) := by
  have first := subscript_eq le_rfl (Int.natCast_pos.mpr entries)
  rw [interp1, lit_real_zero, if_pos ((le_real _ _).mpr low)]
  exact first

theorem interp1_high (entries : 0 < a.length) (positive : 0 < x) (high : (a.length : ℝ) - 1 ≤ x) :
    interp1 x a = some (a.getD (a.length - 1) 0) := by
  have last : subscript a ((a.length : ℤ) - 1) = some (a.getD ((a.length : ℤ) - 1).toNat 0) :=
    subscript_eq (by omega) (by omega)
  have place : ((a.length : ℤ) - 1).toNat = a.length - 1 := by omega
  rw [place] at last
  simp only [interp1, lit_real_zero, le_real, lit_sub_one, if_neg (not_le.mpr positive), if_pos high]
  exact last

theorem toInt64_nat (nonneg : 0 ≤ x) :
    ∃ j : ℕ, (toInt64 x).toInt = j ∧ (j : ℤ) = min ⌊x⌋ (2 ^ 63 - 1) ∧ (j : ℝ) ≤ x := by
  have cast := toInt64_wholeBits nonneg
  have floor : 0 ≤ ⌊x⌋ := Int.floor_nonneg.mpr nonneg
  have whole : ((toInt64 x).toInt.toNat : ℤ) = (toInt64 x).toInt := Int.toNat_of_nonneg (by omega)
  refine ⟨(toInt64 x).toInt.toNat, whole.symm, whole.trans cast, ?_⟩
  have below : (((toInt64 x).toInt.toNat : ℤ) : ℝ) ≤ ⌊x⌋ := by
    rw [whole, cast]
    exact_mod_cast min_le_left _ _
  exact_mod_cast below.trans (Int.floor_le x)

theorem interp1_inside (positive : 0 < x) (inside : x < a.length - 1) :
    ∃ j : ℕ, (j : ℤ) = min ⌊x⌋ (2 ^ 63 - 1) ∧ (j : ℝ) ≤ x ∧ j + 1 < a.length ∧
      interp1 x a = some (a.getD j 0 + (x - j) * (a.getD (j + 1) 0 - a.getD j 0)) := by
  obtain ⟨j, cast, floor, below⟩ := toInt64_nat positive.le
  have room : j + 1 < a.length := by
    have strict : ((j + 1 : ℕ) : ℝ) < a.length := by
      push_cast
      linarith
    exact_mod_cast strict
  have here : subscript a (j : ℤ) = some (a.getD j 0) := subscript_eq (Int.natCast_nonneg j) (by omega)
  have next : subscript a ((j : ℤ) + 1) = some (a.getD (j + 1) 0) := subscript_eq (by omega) (by omega)
  refine ⟨j, floor, below, room, ?_⟩
  simp only [interp1, lit_real_zero, le_real, lit_sub_one, if_neg (not_le.mpr positive), if_neg (not_le.mpr inside), cast, here,
    next]
  rfl

/-- Where `interp2` leaves the position to `interp1`. -/
def AtEnds (a : List ℝ) (x : ℝ) : Prop := x ≤ 1 / 2 ∨ a.length - 3 / 2 ≤ x

theorem interp2_ends (ends : AtEnds a x) : interp2 x a = interp1 x a := by
  rw [interp2, lit_real_half, lit_real_threeHalves, lit_real_natCast, if_pos]
  rw [Bool.or_eq_true, le_real, le_real]
  exact ends

/-- Elsewhere it reads the component nearest to the position and both its neighbours. -/
theorem interp2_inside (inside : ¬ AtEnds a x) :
    ∃ j : ℕ, (j : ℤ) + 1 = min ⌊x + 1 / 2⌋ (2 ^ 63 - 1) ∧ (j : ℝ) + 1 ≤ x + 1 / 2 ∧ j + 2 < a.length ∧
      interp2 x a = some (parabola (2 * (x - (j + 1))) ((a.getD j 0 + a.getD (j + 1) 0) / 2) (a.getD (j + 1) 0)
        ((a.getD (j + 1) 0 + a.getD (j + 2) 0) / 2)) := by
  have test : ¬ (FloatOps.le x (1 / 2) || FloatOps.le ((a.length : ℝ) - 3 / 2) x) = true := by
    rw [Bool.or_eq_true, le_real, le_real]
    exact inside
  obtain ⟨above, below⟩ := not_or.mp inside
  obtain ⟨k, cast, floor, reach⟩ := toInt64_nat (show (0 : ℝ) ≤ x + 1 / 2 by linarith)
  have second : 1 ≤ ⌊x + 1 / 2⌋ := Int.le_floor.mpr (by push_cast; linarith)
  obtain ⟨j, rfl⟩ : ∃ j, k = j + 1 := ⟨k - 1, by omega⟩
  push_cast at cast floor reach
  have room : j + 2 < a.length := by
    have strict : ((j + 2 : ℕ) : ℝ) < a.length := by
      push_cast
      linarith
    exact_mod_cast strict
  have before : subscript a ((j : ℤ) + 1 - 1) = some (a.getD j 0) := by
    rw [add_sub_cancel_right]
    exact subscript_eq (Int.natCast_nonneg j) (by omega)
  have here : subscript a ((j : ℤ) + 1) = some (a.getD (j + 1) 0) := subscript_eq (by omega) (by omega)
  have next : subscript a ((j : ℤ) + 1 + 1) = some (a.getD (j + 2) 0) := subscript_eq (by omega) (by omega)
  refine ⟨j, floor, reach, room, ?_⟩
  rw [interp2, lit_real_half, lit_real_threeHalves, lit_real_natCast, if_neg test]
  simp only [cast, before, here, next, lit_real_two, lit_real_intCast]
  push_cast
  rfl

/-- In an array that a vector can hold, the cast keeps the position. -/
theorem interp2_nearest (limit : (a.length : ℤ) ≤ CachedValue.maxSize) (inside : ¬ AtEnds a x) :
    ∃ j : ℕ, j + 2 < a.length ∧ -1 ≤ 2 * (x - (j + 1)) ∧ 2 * (x - (j + 1)) < 1 ∧
      interp2 x a = some (parabola (2 * (x - (j + 1))) ((a.getD j 0 + a.getD (j + 1) 0) / 2) (a.getD (j + 1) 0)
        ((a.getD (j + 1) 0 + a.getD (j + 2) 0) / 2)) := by
  obtain ⟨j, floor, near, room, read⟩ := interp2_inside inside
  obtain ⟨_, below⟩ := not_or.mp inside
  have bound : ⌊x + 1 / 2⌋ ≤ a.length := by
    refine Int.floor_le_iff.mpr ?_
    push_cast
    linarith
  have kept : ((j : ℤ) + 1 : ℤ) = ⌊x + 1 / 2⌋ := by
    rw [CachedValue.maxSize] at limit
    omega
  have far : x + 1 / 2 < ((j : ℤ) + 1 : ℤ) + 1 := by
    rw [kept]
    exact Int.lt_floor_add_one _
  push_cast at far
  exact ⟨j, room, by linarith, by linarith, read⟩

theorem interp1_between (limit : (a.length : ℤ) ≤ CachedValue.maxSize) {j : ℕ} (room : j + 1 < a.length)
    (above : (j : ℝ) < x) (below : x < j + 1) :
    interp1 x a = some (a.getD j 0 + (x - j) * (a.getD (j + 1) 0 - a.getD j 0)) := by
  have positive : 0 < x := (Nat.cast_nonneg j).trans_lt above
  have last : (j : ℝ) + 2 ≤ a.length := by exact_mod_cast room
  obtain ⟨k, floor, _, _, read⟩ := interp1_inside positive (by linarith : x < a.length - 1)
  have place : ⌊x⌋ = j := Int.floor_eq_iff.mpr ⟨by exact_mod_cast above.le, by exact_mod_cast below⟩
  obtain rfl : k = j := by
    rw [CachedValue.maxSize] at limit
    omega
  exact read

theorem interp1_isSome (entries : 0 < a.length) (x : ℝ) : (interp1 x a).isSome = true := by
  rcases le_or_gt x 0 with low | positive
  · rw [interp1_low entries low, Option.isSome_some]
  · rcases le_or_gt ((a.length : ℝ) - 1) x with high | inside
    · rw [interp1_high entries positive high, Option.isSome_some]
    · obtain ⟨j, _, _, _, read⟩ := interp1_inside positive inside
      rw [read, Option.isSome_some]

theorem interp2_isSome (entries : 0 < a.length) (x : ℝ) : (interp2 x a).isSome = true := by
  by_cases ends : AtEnds a x
  · rw [interp2_ends ends]
    exact interp1_isSome entries x
  · obtain ⟨j, _, _, _, read⟩ := interp2_inside ends
    rw [read, Option.isSome_some]

theorem parabola_affine {t : ℝ} (slope here : ℝ) (above : -1 ≤ t) (below : t ≤ 1) :
    parabola t ((here - slope + here) / 2) here ((here + (here + slope)) / 2) = here + t / 2 * slope := by
  rw [parabola_eq _ _ _ above below]
  ring

theorem interp1_affine {start slope : ℝ} (affine : ∀ i < a.length, a.getD i 0 = start + slope * i)
    (from_zero : 0 ≤ x) (to_last : x ≤ a.length - 1) : interp1 x a = some (start + slope * x) := by
  have entries : 0 < a.length := by
    have positive : (0 : ℝ) < a.length := by linarith
    exact_mod_cast positive
  rcases from_zero.eq_or_lt with rfl | positive
  · rw [interp1_low entries le_rfl, affine 0 entries, Nat.cast_zero]
  · rcases to_last.eq_or_lt with rfl | inside
    · rw [interp1_high entries positive le_rfl, affine _ (Nat.sub_lt entries Nat.one_pos), Nat.cast_sub entries,
        Nat.cast_one]
    · obtain ⟨j, _, _, room, read⟩ := interp1_inside positive inside
      rw [read, affine j (by omega), affine (j + 1) room]
      push_cast
      congr 1
      ring

theorem interp2_affine {start slope : ℝ} (affine : ∀ i < a.length, a.getD i 0 = start + slope * i)
    (limit : (a.length : ℤ) ≤ CachedValue.maxSize) (from_zero : 0 ≤ x) (to_last : x ≤ a.length - 1) :
    interp2 x a = some (start + slope * x) := by
  by_cases ends : AtEnds a x
  · rw [interp2_ends ends]
    exact interp1_affine affine from_zero to_last
  · obtain ⟨j, room, above, below, read⟩ := interp2_nearest limit ends
    have here := affine (j + 1) (by omega)
    have left : a.getD j 0 = a.getD (j + 1) 0 - slope := by
      rw [here, affine j (by omega)]
      push_cast
      ring
    have right : a.getD (j + 2) 0 = a.getD (j + 1) 0 + slope := by
      rw [here, affine (j + 2) room]
      push_cast
      ring
    rw [read, left, right, parabola_affine _ _ above below.le, here]
    push_cast
    congr 1
    ring

theorem interp2_first (entries : 0 < a.length) : interp2 0 a = some (a.getD 0 0) := by
  have ends : AtEnds a 0 := .inl (by norm_num)
  rw [interp2_ends ends]
  exact interp1_low entries le_rfl

theorem interp2_last (entries : 0 < a.length) (high : (a.length : ℝ) - 1 ≤ x) (nonneg : 0 ≤ x) :
    interp2 x a = some (a.getD (a.length - 1) 0) := by
  rw [interp2_ends (.inr (by linarith))]
  rcases nonneg.eq_or_lt with rfl | positive
  · have single : a.length = 1 := by
      have small : (a.length : ℝ) ≤ 1 := by linarith
      have small' : a.length ≤ 1 := by exact_mod_cast small
      omega
    rw [interp1_low entries le_rfl, single]
  · exact interp1_high entries positive high

/-- At a component that is neither the first nor the last the parabola has its value. -/
theorem interp2_component (limit : (a.length : ℤ) ≤ CachedValue.maxSize) {i : ℕ} (positive : 0 < i)
    (room : i + 1 < a.length) : interp2 (i : ℝ) a = some (a.getD i 0) := by
  have least : (1 : ℝ) ≤ i := by exact_mod_cast positive
  have last : (i : ℝ) + 2 ≤ a.length := by exact_mod_cast room
  have inside : ¬ AtEnds a i := by
    rintro (low | high)
    · linarith
    · linarith
  obtain ⟨j, _, above, below, read⟩ := interp2_nearest limit inside
  obtain rfl : i = j + 1 := by
    have lower : j + 1 < i + 1 := by
      have strict : (((j + 1 : ℕ)) : ℝ) < ((i + 1 : ℕ) : ℝ) := by
        push_cast
        linarith
      exact_mod_cast strict
    have upper : i < j + 2 := by
      have strict : (i : ℝ) < ((j + 2 : ℕ) : ℝ) := by
        push_cast
        linarith
      exact_mod_cast strict
    omega
  have zero : 2 * (((j + 1 : ℕ) : ℝ) - (j + 1)) = 0 := by
    push_cast
    ring
  rw [read, zero, parabola_eq _ _ _ (by norm_num) (by norm_num)]
  congr 1
  ring

/-- Halfway between two components there is their mean: on the line at both ends, and
where two parabolas meet elsewhere. -/
theorem interp2_half (limit : (a.length : ℤ) ≤ CachedValue.maxSize) {i : ℕ} (room : i + 1 < a.length) :
    interp2 ((i : ℝ) + 1 / 2) a = some ((a.getD i 0 + a.getD (i + 1) 0) / 2) := by
  by_cases ends : AtEnds a ((i : ℝ) + 1 / 2)
  · rw [interp2_ends ends, interp1_between limit room (by linarith) (by linarith)]
    congr 1
    ring
  · obtain ⟨j, _, above, below, read⟩ := interp2_nearest limit ends
    obtain rfl : i = j := by
      have lower : j < i + 1 := by
        have strict : (j : ℝ) < ((i + 1 : ℕ) : ℝ) := by
          push_cast
          linarith
        exact_mod_cast strict
      have upper : i < j + 1 := by
        have strict : (i : ℝ) < ((j + 1 : ℕ) : ℝ) := by
          push_cast
          linarith
        exact_mod_cast strict
      omega
    have minus : 2 * ((i : ℝ) + 1 / 2 - (i + 1)) = -1 := by ring
    rw [read, minus, parabola_eq _ _ _ le_rfl (by norm_num)]
    congr 1
    ring

theorem interp2array_eq (entries : 0 < a.length) (m : ℕ) :
    interp2array a m = some ((List.range m).map fun j : ℕ =>
      (interp2 ((j : ℝ) * (((a.length : ℝ) - 1) / (m - 1))) a).getD 0) := by
  have read : ∀ j : ℕ, interp2 (lit (j : ℚ) * (lit (((a.length : ℤ) - 1 : ℤ) : ℚ) / lit (((m : ℤ) - 1 : ℤ) : ℚ))) a =
      some ((interp2 ((j : ℝ) * (((a.length : ℝ) - 1) / (m - 1))) a).getD 0) := by
    intro j
    have target : (lit (((m : ℤ) - 1 : ℤ) : ℚ) : ℝ) = m - 1 := by
      rw [lit_real_intCast]
      push_cast
      rfl
    obtain ⟨component, found⟩ := Option.isSome_iff_exists.mp
      (interp2_isSome entries ((j : ℝ) * (((a.length : ℝ) - 1) / (m - 1))))
    rw [lit_real_natCast, lit_sub_one, target, found, Option.getD_some]
  have reads := congrArg (fun position => (List.range m).mapM position) (funext read)
  rw [interp2array_eq_mapM]
  exact reads.trans (List.mapM_pure (m := Option))

theorem head?_eq (entries : 0 < a.length) : a.head? = some (a.getD 0 0) := by
  rw [List.head?_eq_getElem?, List.getD_eq_getElem?_getD, List.getElem?_eq_getElem entries, Option.getD_some]

theorem getLast?_eq (entries : 0 < a.length) : a.getLast? = some (a.getD (a.length - 1) 0) := by
  rw [List.getLast?_eq_getElem?, List.getD_eq_getElem?_getD, List.getElem?_eq_getElem (Nat.sub_lt entries Nat.one_pos),
    Option.getD_some]

theorem interp2array_ends (entries : 0 < a.length) {m : ℕ} (several : 2 ≤ m) :
    ∃ b, interp2array a m = some b ∧ b.length = m ∧ b.head? = a.head? ∧ b.getLast? = a.getLast? := by
  obtain ⟨last, rfl⟩ : ∃ last, m = last + 1 := ⟨m - 1, by omega⟩
  have steps : (0 : ℝ) < last := by exact_mod_cast (by omega : 0 < last)
  refine ⟨_, interp2array_eq entries _, by simp, ?_, ?_⟩
  · rw [head?_eq entries, List.range_succ_eq_map, List.map_cons, List.head?_cons, Nat.cast_zero, zero_mul,
      interp2_first entries, Option.getD_some]
  · have whole : (last : ℝ) * (((a.length : ℝ) - 1) / ((last + 1 : ℕ) - 1)) = a.length - 1 := by
      push_cast
      rw [add_sub_cancel_right]
      exact mul_div_cancel₀ _ steps.ne'
    have nonneg : (0 : ℝ) ≤ a.length - 1 := sub_nonneg.mpr (by exact_mod_cast entries)
    rw [getLast?_eq entries, List.range_succ, List.map_append, List.map_singleton, List.getLast?_concat, whole,
      interp2_last entries le_rfl nonneg, Option.getD_some]

end BasicMath

namespace StateValue

variable {value : StateValue ℝ}

theorem atInt64_low (entries : 0 < value.size) {i : ℤ} (low : i ≤ 0) : value.atInt64 i = value.data.getD 0 0 := by
  have inside : ¬ (value.data.length : ℤ) ≤ i := by
    rw [size] at entries
    omega
  have zero : (if i < 0 then 0 else i).toNat = 0 := by
    split <;> omega
  rw [atInt64, if_neg (by exact Nat.pos_iff_ne_zero.mp entries)]
  simp only [if_neg inside, zero, lit_real_zero]

theorem atInt64_high (entries : 0 < value.size) {i : ℤ} (high : (value.size : ℤ) - 1 ≤ i) :
    value.atInt64 i = value.data.getD (value.size - 1) 0 := by
  rcases high.eq_or_lt with same | beyond
  · have last : i = ((value.size - 1 : ℕ) : ℤ) := by omega
    have bound : value.size - 1 < value.data.length := Nat.sub_lt entries Nat.one_pos
    rw [last, CachedValue.atInt64_eq bound, List.getD_eq_getElem?_getD, List.getElem?_eq_getElem bound,
      Option.getD_some]
  · have outside : (value.data.length : ℤ) ≤ i := by
      rw [size] at beyond
      omega
    have place : ((value.data.length : ℤ) - 1).toNat = value.size - 1 := by
      rw [size]
      omega
    rw [atInt64, if_neg (by exact Nat.pos_iff_ne_zero.mp entries)]
    simp only [if_pos outside, place, lit_real_zero]

theorem atFloat_eq (entries : 0 < value.size) (x : ℝ) : value.atFloat x = interp2 x value.data := by
  rw [atFloat, if_neg (Nat.pos_iff_ne_zero.mp entries)]

/-- At whole positions both kinds of access agree, outside the value too. -/
theorem atFloat_intCast (entries : 0 < value.size) (limit : (value.size : ℤ) ≤ CachedValue.maxSize) (i : ℤ) :
    value.atFloat (i : ℝ) = some (value.atInt64 i) := by
  rw [atFloat_eq entries]
  rcases le_or_gt i 0 with low | positive
  · have low' : (i : ℝ) ≤ 0 := by exact_mod_cast low
    have ends : AtEnds value.data (i : ℝ) := .inl (by linarith)
    rw [interp2_ends ends, interp1_low entries low', atInt64_low entries low]
  · rcases le_or_gt ((value.size : ℤ) - 1) i with high | inside
    · have high' : (value.data.length : ℝ) - 1 ≤ i := by exact_mod_cast high
      rw [interp2_last entries high' (by exact_mod_cast positive.le), atInt64_high entries high]
      rfl
    · obtain ⟨k, rfl⟩ := Int.eq_ofNat_of_zero_le positive.le
      have room : k + 1 < value.data.length := by
        rw [size] at inside
        omega
      have bound : k < value.data.length := by omega
      rw [Int.cast_natCast, interp2_component limit (by omega) room, CachedValue.atInt64_eq bound,
        List.getD_eq_getElem?_getD, List.getElem?_eq_getElem bound, Option.getD_some]

/-- The laws of interpolated access to a value that is not empty, with as many
components as a vector can have: it agrees with `at(int64_t)` at whole positions and is
the mean of the neighbours at half positions; it is affine where the components are; and
`interp2array` keeps the first and the last component. -/
theorem interpolation_laws (value : StateValue ℝ) (entries : 0 < value.size)
    (limit : (value.size : ℤ) ≤ CachedValue.maxSize) :
    (∀ i : ℤ, value.atFloat (i : ℝ) = some (value.atInt64 i)) ∧
      (∀ i : ℕ, i + 1 < value.size →
        value.atFloat ((i : ℝ) + 1 / 2) = some ((value.atInt64 i + value.atInt64 (i + 1)) / 2)) ∧
      (∀ start slope : ℝ, (∀ i < value.size, value.atInt64 (i : ℕ) = start + slope * i) →
        ∀ x : ℝ, 0 ≤ x → x ≤ value.size - 1 → value.atFloat x = some (start + slope * x)) ∧
      ∀ m : ℕ, 2 ≤ m → ∃ b, interp2array value.data m = some b ∧ b.length = m ∧ b.head? = value.data.head? ∧
        b.getLast? = value.data.getLast? := by
  have component : ∀ i : ℕ, i < value.size → value.atInt64 i = value.data.getD i 0 := by
    intro i inside
    rw [CachedValue.atInt64_eq inside, List.getD_eq_getElem?_getD, List.getElem?_eq_getElem inside, Option.getD_some]
  refine ⟨atFloat_intCast entries limit, ?_, ?_, ?_⟩
  · intro i room
    have next := component (i + 1) room
    push_cast at next
    rw [atFloat_eq entries, component i (by omega), next]
    exact interp2_half limit room
  · intro start slope affine x from_zero to_last
    rw [atFloat_eq entries]
    refine interp2_affine ?_ limit from_zero to_last
    intro i inside
    rw [← component i inside]
    exact affine i inside
  · exact fun m several => interp2array_ends entries several

/-- Of 10, 20 and 40, there is 30 between the last two. -/
theorem interpolation_laws_three :
    (⟨[10, 20, 40]⟩ : StateValue ℝ).atFloat ((1 : ℕ) + 1 / 2) =
      some (((⟨[10, 20, 40]⟩ : StateValue ℝ).atInt64 (1 : ℕ) + (⟨[10, 20, 40]⟩ : StateValue ℝ).atInt64 ((1 : ℕ) + 1)) / 2) :=
  (interpolation_laws ⟨[10, 20, 40]⟩ (by decide) (by decide)).2.1 1 (by decide)

end StateValue

end

end Goap
