import Goap.Comparer.NumericStateComparer
import Goap.Foundation.InnerProduct
import Goap.State.SameEntries
import Goap.Value.RealOps

namespace Goap

open FloatOps BasicMath Foundation

section

variable [RealBits]

theorem fmax_real (x y : ℝ) : fmax x y = max x y := by
  unfold fmax
  by_cases below : x < y
  · simp [FloatOps.lt, below, max_eq_right below.le]
  · simp [FloatOps.lt, below, max_eq_left (not_lt.mp below)]

theorem floatSimilarity_real (x y : ℝ) : floatSimilarity x y =
    if 0 < max |x| |y| then |x - y| / max |x| |y| else 0 := by
  simp [floatSimilarity, fmax_real, FloatOps.isnan, FloatOps.abs, FloatOps.lit, FloatOps.lt]

theorem floatSimilarity_nonneg (x y : ℝ) : 0 ≤ floatSimilarity x y := by
  rw [floatSimilarity_real]
  split <;> positivity

theorem floatSimilarity_eq_zero (x y : ℝ) : floatSimilarity x y = 0 ↔ x = y := by
  rw [floatSimilarity_real]
  split
  · rename_i positive
    rw [div_eq_zero_iff, or_iff_left positive.ne', abs_eq_zero, sub_eq_zero]
  · rename_i flat
    have bound := not_lt.mp flat
    have left := abs_nonpos_iff.mp ((le_max_left _ _).trans bound)
    have right := abs_nonpos_iff.mp ((le_max_right _ _).trans bound)
    simp [left, right]

theorem one_sub_floatSimilarity {a b : ℝ} (positive : 0 < a) (positive' : 0 < b) :
    1 - floatSimilarity a b = min a b / max a b := by
  have largest : 0 < max a b := lt_max_of_lt_left positive
  rw [floatSimilarity_real, abs_of_pos positive, abs_of_pos positive', if_pos largest, eq_div_iff largest.ne',
    sub_mul, div_mul_cancel₀ _ largest.ne', abs_sub_comm, ← max_sub_min_eq_abs]
  ring

abbrev StateValue.common (value other : StateValue ℝ) : List (ℝ × ℝ) := value.data.zip other.data

theorem cosineDistance_real (value other : StateValue ℝ) :
    let pairs := value.common other
    value.cosineDistance other =
      (if √(firstSquares pairs) * √(secondSquares pairs) = 0 then 0
        else dot pairs / (√(firstSquares pairs) * √(secondSquares pairs)),
        √(firstSquares pairs), √(secondSquares pairs)) := by
  have sums := inner_fold (value.common other) 0 0 0
  simp only [zero_add] at sums
  simp [StateValue.cosineDistance, StateValue.cosineSums, FloatOps.lit, sums, FloatOps.sqrt, FloatOps.eq]

/-- Same direction and same module leave nothing of the distance, and only they do. -/
theorem cosine_reaches_iff {pairs : List (ℝ × ℝ)} (positive : 0 < √(firstSquares pairs))
    (positive' : 0 < √(secondSquares pairs)) :
    1 ≤ dot pairs / (√(firstSquares pairs) * √(secondSquares pairs)) *
        (1 - floatSimilarity √(firstSquares pairs) √(secondSquares pairs)) ↔ ∀ pair ∈ pairs, pair.1 = pair.2 := by
  have squared := Real.mul_self_sqrt (sum_squares_nonneg Prod.fst pairs)
  have squared' := Real.mul_self_sqrt (sum_squares_nonneg Prod.snd pairs)
  change √(firstSquares pairs) * √(firstSquares pairs) = firstSquares pairs at squared
  change √(secondSquares pairs) * √(secondSquares pairs) = secondSquares pairs at squared'
  generalize √(firstSquares pairs) = a at *
  generalize √(secondSquares pairs) = b at *
  have largest : 0 < max a b := lt_max_of_lt_left positive
  have quotient : dot pairs / (a * b) * (min a b / max a b) = dot pairs / (max a b * max a b) := by
    have smallest : 0 < min a b := lt_min positive positive'
    rw [← min_mul_max a b]
    field_simp
  rw [one_sub_floatSimilarity positive positive', quotient, le_div_iff₀ (mul_pos largest largest), one_mul]
  constructor
  · intro reaches
    apply equal_of_squares_le_dot
    · rw [← squared]
      exact (mul_self_le_mul_self positive.le (le_max_left a b)).trans reaches
    · rw [← squared']
      exact (mul_self_le_mul_self positive'.le (le_max_right a b)).trans reaches
  · intro equal
    obtain ⟨first, second⟩ := squares_of_equal equal
    rcases max_choice a b with same | same
    · rw [same, squared, first]
    · rw [same, squared', second]

/-- The state's value and the goal's agree on the components that both have, of which
there is one, and, unless both are numbers, one that is not 0. -/
structure StateValue.Overlaps (value goal : StateValue ℝ) : Prop where
  common : value.common goal ≠ []
  agree : ∀ pair ∈ value.common goal, pair.1 = pair.2
  nonzero : goal.size = 1 ∧ value.size = 1 ∨ ∃ pair ∈ value.common goal, pair.1 ≠ 0

namespace NumericStateComparer

theorem percentOf_nonneg (valueSrc valueDst : StateValue ℝ) : 0 ≤ percentOf valueSrc valueDst := by
  unfold percentOf
  split
  · exact floatSimilarity_nonneg _ _
  · split
    · simp [fmax_real, FloatOps.lit]
    · simp [FloatOps.lit]

theorem percentOf_scalars {valueSrc valueDst : StateValue ℝ} (scalars : valueDst.size = 1 ∧ valueSrc.size = 1) :
    percentOf valueSrc valueDst = 0 ↔ valueSrc.Overlaps valueDst := by
  obtain ⟨y, right⟩ := List.length_eq_one_iff.mp scalars.1
  obtain ⟨x, left⟩ := List.length_eq_one_iff.mp scalars.2
  have pair : valueSrc.common valueDst = [(x, y)] := by
    rw [StateValue.common, left, right]
    rfl
  rw [percentOf, if_pos scalars, floatSimilarity_eq_zero]
  simp only [StateValue.atInt64, left, right]
  constructor
  · intro same
    exact ⟨by simp [pair], by simpa [pair] using same, .inl scalars⟩
  · rintro ⟨_, agree, _⟩
    simpa [pair] using agree

/-- Anything longer is compared by direction and module of the common components. -/
theorem percentOf_vectors {valueSrc valueDst : StateValue ℝ} (longer : ¬ (valueDst.size = 1 ∧ valueSrc.size = 1))
    (both : 1 ≤ valueDst.size ∧ 1 ≤ valueSrc.size) :
    percentOf valueSrc valueDst = 0 ↔ valueSrc.Overlaps valueDst := by
  have some_ : valueSrc.common valueDst ≠ [] := by
    apply List.ne_nil_of_length_pos
    rw [StateValue.common, List.length_zip]
    exact lt_min both.2 both.1
  have overlaps : valueSrc.Overlaps valueDst ↔ (∀ pair ∈ valueSrc.common valueDst, pair.1 = pair.2) ∧
      ∃ pair ∈ valueSrc.common valueDst, pair.1 ≠ 0 :=
    ⟨fun overlaps => ⟨overlaps.agree, overlaps.nonzero.resolve_left longer⟩,
      fun ⟨agree, nonzero⟩ => ⟨some_, agree, .inr nonzero⟩⟩
  rw [overlaps, percentOf, if_neg longer, if_pos both, cosineDistance_real]
  simp only [fmax_real, lit_real_zero, lit_real_one]
  rw [max_eq_left_iff, sub_nonpos]
  generalize valueSrc.common valueDst = pairs
  split
  · rename_i flat
    rw [zero_mul]
    refine iff_of_false (by norm_num) ?_
    rintro ⟨agree, pair, member, nonzero⟩
    have first := Real.sqrt_pos.mpr (firstSquares_pos member nonzero)
    obtain ⟨same, same'⟩ := squares_of_equal agree
    rw [same', ← same] at flat
    exact (mul_pos first first).ne' flat
  · rename_i steep
    have left := lt_of_le_of_ne (Real.sqrt_nonneg _) (left_ne_zero_of_mul steep).symm
    have right := lt_of_le_of_ne (Real.sqrt_nonneg _) (right_ne_zero_of_mul steep).symm
    rw [cosine_reaches_iff left right]
    refine ⟨fun agree => ⟨agree, ?_⟩, And.left⟩
    by_contra zeros
    have nothing : firstSquares pairs = 0 := by
      apply List.sum_eq_zero
      intro square member
      obtain ⟨pair, present, rfl⟩ := List.mem_map.mp member
      by_contra nonzero
      exact zeros ⟨pair, present, left_ne_zero_of_mul nonzero⟩
    rw [nothing, Real.sqrt_zero] at left
    exact lt_irrefl _ left

theorem percentOf_eq_zero (valueSrc valueDst : StateValue ℝ) :
    percentOf valueSrc valueDst = 0 ↔ valueSrc.Overlaps valueDst := by
  by_cases scalars : valueDst.size = 1 ∧ valueSrc.size = 1
  · exact percentOf_scalars scalars
  by_cases both : 1 ≤ valueDst.size ∧ 1 ≤ valueSrc.size
  · exact percentOf_vectors scalars both
  rw [percentOf, if_neg scalars, if_neg both, lit_real_one]
  refine iff_of_false one_ne_zero ?_
  rintro ⟨common, _, _⟩
  have length := List.length_pos_iff.mpr common
  rw [StateValue.common, List.length_zip] at length
  exact both ⟨(lt_min_iff.mp length).2, (lt_min_iff.mp length).1⟩

/-- A key of the goal that the state has too, with a value in the relation. -/
def Finds (related : StateValue ℝ → StateValue ℝ → Prop) (stateSrc : State ℝ)
    (entry : StateValue ℝ × StateValue ℝ) : Prop :=
  ∃ valueSrc, stateSrc.find? entry.1 = some valueSrc ∧ related valueSrc entry.2

/-- What an entry of the goal adds to the sum of which `distance` takes the mean: 1
where the state lacks its key. -/
noncomputable def added (stateSrc : State ℝ) (entry : StateValue ℝ × StateValue ℝ) : ℝ :=
  match stateSrc.find? entry.1 with
  | none => 1
  | some valueSrc => percentOf valueSrc entry.2

theorem added_of_lacking {stateSrc : State ℝ} {entry : StateValue ℝ × StateValue ℝ}
    (lacking : stateSrc.find? entry.1 = none) : added stateSrc entry = 1 := by
  rw [added, lacking]

theorem added_nonneg (stateSrc : State ℝ) (entry : StateValue ℝ × StateValue ℝ) : 0 ≤ added stateSrc entry := by
  unfold added
  split
  · exact zero_le_one
  · exact percentOf_nonneg _ _

/-- What the loop of `distance` has added, with the keys that it has not counted. -/
theorem foldl_added (stateSrc : State ℝ) (entries : List (StateValue ℝ × StateValue ℝ)) (percent : ℝ) (count : Nat) :
    let acc := entries.foldl (compareEntry stateSrc) (percent, count)
    acc.2 ≤ count + entries.length ∧
      acc.1 + ((count + entries.length : ℕ) - acc.2 : ℝ) = percent + (entries.map (added stateSrc)).sum := by
  induction entries generalizing percent count with
  | nil => simp
  | cons entry rest ih =>
    rw [List.foldl_cons, List.map_cons, List.sum_cons, List.length_cons, compareEntry, added]
    cases stateSrc.find? entry.1 with
    | none =>
      obtain ⟨fewer, sum⟩ := ih percent count
      refine ⟨by dsimp only at fewer ⊢; omega, ?_⟩
      push_cast at sum ⊢
      linarith
    | some valueSrc =>
      obtain ⟨fewer, sum⟩ := ih (percent + percentOf valueSrc entry.2) (count + 1)
      refine ⟨by dsimp only at fewer ⊢; omega, ?_⟩
      push_cast at sum ⊢
      linarith

theorem distance_eq_mean (stateSrc stateDst : State ℝ) :
    distance stateSrc stateDst = (stateDst.data.map (added stateSrc)).sum / stateDst.size := by
  obtain ⟨fewer, sum⟩ := foldl_added stateSrc stateDst.data 0 0
  rw [distance, lit_real_zero]
  generalize stateDst.data.foldl (compareEntry stateSrc) (0, 0) = acc at fewer sum
  obtain ⟨percent, count⟩ := acc
  change (percent + (((stateDst.size - count : ℕ) : ℚ) : ℝ)) / (((stateDst.size : ℕ) : ℚ) : ℝ) = _
  simp only [zero_add] at fewer sum
  rw [Rat.cast_natCast, Rat.cast_natCast, State.size, Nat.cast_sub fewer, sum]

theorem added_eq_zero (stateSrc : State ℝ) (entry : StateValue ℝ × StateValue ℝ) :
    added stateSrc entry = 0 ↔ Finds StateValue.Overlaps stateSrc entry := by
  unfold added Finds
  cases stateSrc.find? entry.1 with
  | none => simp
  | some valueSrc => simp [percentOf_eq_zero]

/-- The distance is 0 exactly when the state has every key of a goal that is not
empty, with a value that overlaps the goal's. -/
theorem distance_eq_zero (stateSrc : State ℝ) {stateDst : State ℝ} (entries : stateDst.data ≠ []) :
    distance stateSrc stateDst = 0 ↔ ∀ entry ∈ stateDst.data, Finds StateValue.Overlaps stateSrc entry := by
  have total : (stateDst.size : ℝ) ≠ 0 := Nat.cast_ne_zero.mpr (List.length_pos_iff.mpr entries).ne'
  rw [distance_eq_mean, div_eq_zero_iff, or_iff_left total]
  constructor
  · intro zero entry member
    rw [← added_eq_zero]
    apply List.all_zero_of_le_zero_le_of_sum_eq_zero _ zero (List.mem_map_of_mem member)
    intro x present
    obtain ⟨other, _, rfl⟩ := List.mem_map.mp present
    exact added_nonneg stateSrc other
  · intro overlap
    apply List.sum_eq_zero
    intro x present
    obtain ⟨entry, member, rfl⟩ := List.mem_map.mp present
    exact (added_eq_zero stateSrc entry).mpr (overlap entry member)

theorem enough_eq_true {values : ℝ → Prop} (exact : ExactOn values) {stateSrc stateDst : State ℝ}
    (left : stateSrc.Within values) (right : stateDst.Within values) :
    enough stateSrc stateDst = true ↔ ∀ entry ∈ stateDst.data, Finds Eq stateSrc entry := by
  rw [enough, List.all_eq_true]
  refine forall₂_congr fun entry member => ?_
  unfold Finds
  cases found : stateSrc.find? entry.1 with
  | none => simp
  | some value =>
    obtain ⟨key, present, _⟩ := HashedList.lookup_mem found
    simp only [Option.some.injEq, exists_eq_left']
    rw [StateValue.equals_iff exact (right entry member).2 (left _ present).2, eq_comm]

end NumericStateComparer

namespace StateValue

/-- No component, or several of them and all 0. -/
def IsBlank (value : StateValue ℝ) : Prop := value.size ≠ 1 ∧ ∀ x ∈ value.data, x = 0

omit [RealBits] in
theorem mem_common_self {value : StateValue ℝ} {pair : ℝ × ℝ} (member : pair ∈ value.common value) :
    pair.1 = pair.2 ∧ pair.1 ∈ value.data := by
  rw [common, List.zip_eq_zipWith, List.zipWith_self] at member
  obtain ⟨x, present, rfl⟩ := List.mem_map.mp member
  exact ⟨rfl, present⟩

omit [RealBits] in
/-- A value overlaps itself unless it is blank. -/
theorem overlaps_self (value : StateValue ℝ) : value.Overlaps value ↔ ¬ value.IsBlank := by
  have nonempty : value.common value = [] ↔ value.data = [] := by simp [common]
  constructor
  · rintro ⟨_, _, scalars | ⟨pair, member, nonzero⟩⟩ ⟨several, zeros⟩
    · exact several scalars.1
    · exact nonzero (zeros _ (mem_common_self member).2)
  · intro marked
    by_cases scalar : value.size = 1
    · refine ⟨?_, fun pair member => (mem_common_self member).1, .inl ⟨scalar, scalar⟩⟩
      rw [Ne, nonempty]
      exact List.ne_nil_of_length_eq_add_one scalar
    · have nonzero : ∃ x ∈ value.data, x ≠ 0 := by
        by_contra zeros
        exact marked ⟨scalar, fun x member => by_contra fun nonzero => zeros ⟨x, member, nonzero⟩⟩
      obtain ⟨x, present, nonzero⟩ := nonzero
      refine ⟨?_, fun pair member => (mem_common_self member).1, .inr ⟨(x, x), ?_, nonzero⟩⟩
      · rw [Ne, nonempty]
        exact List.ne_nil_of_mem present
      · rw [common, List.zip_eq_zipWith, List.zipWith_self]
        exact List.mem_map.mpr ⟨x, present, rfl⟩

omit [RealBits] in
theorem Overlaps.eq {value goal : StateValue ℝ} (overlaps : value.Overlaps goal) (size : value.size = goal.size) :
    value = goal := by
  obtain ⟨these⟩ := value
  obtain ⟨others⟩ := goal
  have agree : ∀ pair ∈ these.zip others, pair.1 = pair.2 := overlaps.agree
  have length : these.length = others.length := size
  congr 1
  apply List.ext_getElem length
  intro i first second
  have bound : i < (these.zip others).length := by
    rw [List.length_zip]
    exact lt_min first second
  simpa using agree _ (List.getElem_mem bound)

end StateValue

namespace NumericStateComparer

/-- Every value of the goal overlaps the state's, but one of them is longer or shorter. -/
def Truncated (stateSrc stateDst : State ℝ) : Prop :=
  (∀ entry ∈ stateDst.data, Finds StateValue.Overlaps stateSrc entry) ∧
    ∃ entry ∈ stateDst.data, Finds (fun value goal => value.size ≠ goal.size) stateSrc entry

/-- The state has every value of the goal, and one of them is blank. -/
def Blanked (stateSrc stateDst : State ℝ) : Prop :=
  (∀ entry ∈ stateDst.data, Finds Eq stateSrc entry) ∧ ∃ entry ∈ stateDst.data, entry.2.IsBlank

/-- A distance of zero means that the goal is reached, and the other way round,
except where a value of the goal goes on beyond the state's, or the other way
round, and where a reached value is blank. -/
theorem distance_zero_iff_enough_iff (values : ℝ → Prop) (exact : ExactOn values) (stateSrc stateDst : State ℝ)
    (entries : stateDst.data ≠ []) (left : stateSrc.Within values) (right : stateDst.Within values) :
    (distance stateSrc stateDst = 0 ↔ enough stateSrc stateDst = true) ↔
      ¬ Truncated stateSrc stateDst ∧ ¬ Blanked stateSrc stateDst := by
  rw [distance_eq_zero stateSrc entries, enough_eq_true exact left right]
  constructor
  · intro agree
    constructor
    · rintro ⟨overlap, entry, member, value, found, longer⟩
      obtain ⟨other, found', same⟩ := agree.mp overlap entry member
      cases found.symm.trans found'
      exact longer (congrArg StateValue.size same)
    · rintro ⟨equal, entry, member, blank⟩
      obtain ⟨value, found, overlaps⟩ := agree.mpr equal entry member
      obtain ⟨other, found', same⟩ := equal entry member
      cases found.symm.trans found'
      subst same
      exact (StateValue.overlaps_self entry.2).mp overlaps blank
  · rintro ⟨whole, marked⟩
    constructor
    · intro overlap entry member
      obtain ⟨value, found, overlaps⟩ := overlap entry member
      refine ⟨value, found, overlaps.eq ?_⟩
      by_contra longer
      exact whole ⟨overlap, entry, member, value, found, longer⟩
    · intro equal entry member
      obtain ⟨value, found, same⟩ := equal entry member
      refine ⟨value, found, ?_⟩
      subst same
      exact (StateValue.overlaps_self entry.2).mpr fun blank => marked ⟨equal, entry, member, blank⟩

end NumericStateComparer

end

namespace NumericStateComparer

def IsFlag (x : ℝ) : Prop := x = 0 ∨ x = 1

theorem exactOn_isFlag [RealBits] : ExactOn IsFlag := by
  rintro x y (rfl | rfl) (rfl | rfl) <;>
    norm_num [floatEqual, FloatOps.abs, FloatOps.le, FloatOps.lt, FloatOps.lit, GOAP_FLT_EPSILON, GOAP_FLT_MIN]

section

variable [RealBits]

noncomputable def holding (components : List ℝ) : State ℝ := State.new.put (.scalar 0) ⟨components⟩

theorem data_holding (components : List ℝ) : (holding components).data = [(.scalar 0, ⟨components⟩)] := rfl

theorem holding_within {components : List ℝ} (flags : ∀ x ∈ components, IsFlag x) :
    (holding components).Within IsFlag := by
  apply State.within_new.put _ flags
  intro x member
  exact .inl (List.mem_singleton.mp member)

theorem finds_holding {related : StateValue ℝ → StateValue ℝ → Prop} {components others : List ℝ}
    (flags : ∀ x ∈ components, IsFlag x) :
    (∀ entry ∈ (holding others).data, Finds related (holding components) entry) ↔ related ⟨components⟩ ⟨others⟩ := by
  have zero : (StateValue.scalar (0 : ℝ)).Within IsFlag := fun x member => .inl (List.mem_singleton.mp member)
  have found : (holding components).find? (.scalar 0) = some ⟨components⟩ :=
    (State.find?_eq_some_iff exactOn_isFlag (holding_within flags) zero).mpr (by simp [data_holding])
  simp [data_holding, Finds, found]

end

theorem distance_zero_iff_enough_holding :
    letI := wholeBits
    (distance (holding [1, 0, 1]) (holding [1, 0, 1]) = 0 ↔ enough (holding [1, 0, 1]) (holding [1, 0, 1]) = true) ∧
      (distance (holding [0, 1, 1]) (holding [1, 0, 1]) = 0 ↔ enough (holding [0, 1, 1]) (holding [1, 0, 1]) = true) := by
  let _ := wholeBits
  have flags : ∀ x ∈ [(1 : ℝ), 0, 1], IsFlag x := by simp [IsFlag]
  have flags' : ∀ x ∈ [(0 : ℝ), 1, 1], IsFlag x := by simp [IsFlag]
  have whole : ∀ {components : List ℝ}, (∀ x ∈ components, IsFlag x) → components.length = 3 →
      ¬ Truncated (holding components) (holding [1, 0, 1]) := by
    rintro components known three ⟨_, entry, member, value, found, longer⟩
    have lengths : ∀ entry ∈ (holding [1, 0, 1]).data, Finds (fun value other => value.size = other.size) (holding components) entry :=
      (finds_holding known).mpr three
    obtain ⟨other, found', same⟩ := lengths entry member
    cases found.symm.trans found'
    exact longer same
  have marked : ∀ state, ¬ Blanked state (holding [1, 0, 1]) := by
    rintro state ⟨_, entry, member, blank⟩
    rw [data_holding, List.mem_singleton] at member
    rw [member] at blank
    exact one_ne_zero (blank.2 1 List.mem_cons_self)
  exact ⟨(distance_zero_iff_enough_iff IsFlag exactOn_isFlag (holding [1, 0, 1]) (holding [1, 0, 1]) (List.cons_ne_nil _ _)
      (holding_within flags) (holding_within flags)).mpr ⟨whole flags rfl, marked _⟩,
    (distance_zero_iff_enough_iff IsFlag exactOn_isFlag (holding [0, 1, 1]) (holding [1, 0, 1]) (List.cons_ne_nil _ _)
      (holding_within flags') (holding_within flags)).mpr ⟨whole flags' rfl, marked _⟩⟩

/-- A state that has the first of two components of the goal only is at distance 0. -/
theorem distance_zero_iff_enough_fails : ¬ ∀ (_ : RealBits) (values : ℝ → Prop) (stateSrc stateDst : State ℝ),
    ExactOn values → stateDst.data ≠ [] → stateSrc.Within values → stateDst.Within values →
    (distance stateSrc stateDst = 0 ↔ enough stateSrc stateDst = true) := by
  intro agree
  let _ := wholeBits
  have flags : ∀ x ∈ [(1 : ℝ)], IsFlag x := fun x member => .inr (List.mem_singleton.mp member)
  have flags' : ∀ x ∈ [(1 : ℝ), 1], IsFlag x := by simp [IsFlag]
  have entries : (holding [1, 1]).data ≠ [] := List.cons_ne_nil _ _
  have near : distance (holding [1]) (holding [1, 1]) = 0 := by
    rw [distance_eq_zero _ entries, finds_holding flags]
    exact ⟨by simp, by simp [StateValue.common], .inr ⟨(1, 1), by simp [StateValue.common], one_ne_zero⟩⟩
  have reached := (agree wholeBits IsFlag (holding [1]) (holding [1, 1]) exactOn_isFlag entries (holding_within flags)
    (holding_within flags')).mp near
  rw [enough_eq_true exactOn_isFlag (holding_within flags) (holding_within flags'), finds_holding flags] at reached
  cases reached

end NumericStateComparer

end Goap
