import Goap.Comparer.FunctionStateMeter
import Goap.Comparer.LevensteinDistance
import Goap.State.NullValues

namespace Goap

open FloatOps BasicMath

variable {F : Type} [FloatOps F]

/-- `at(key)`: a null pointer for an absent key and for a null value. -/
def NullableState.at? (state : NullableState F) (key : StateValue F) : Option (StateValue F) := (state.find? key).join

/-- A quotient; `none` where the divisor is 0. -/
def divide (x y : F) : Option F := if eq y (lit 0) then none else some (x / y)

namespace Divided

def floatSimilarity (x y : F) : Option F :=
  if isnan x || isnan y then some (lit 1)
  else
    let diff := abs (x - y)
    let mx := fmax (abs x) (abs y)
    if lt (lit 0) mx then divide diff mx else some (lit 0)

def cosineDistance (value other : StateValue F) : Option (F × F × F) := do
  let (temp, fa, fb) := StateValue.cosineSums value.data other.data
  let fDen := sqrt fa * sqrt fb
  let distance ← if eq fDen (lit 0) then some (lit 0) else divide temp fDen
  return (distance, sqrt fa, sqrt fb)

/-- What a key of both states adds to the distance of `NumericStateComparer`. -/
def percentOf (valueSrc valueDst : StateValue F) : Option F :=
  if valueDst.size = 1 ∧ valueSrc.size = 1 then
    floatSimilarity (valueSrc.atInt64 0) (valueDst.atInt64 0)
  else if 1 ≤ valueDst.size ∧ 1 ≤ valueSrc.size then do
    let (cosDist, thisModule, othersModule) ← cosineDistance valueSrc valueDst
    let similarity ← floatSimilarity thisModule othersModule
    return fmax (lit 0) (lit 1 - cosDist * (lit 1 - similarity))
  else some (lit 1)

/-- `StateValue::levensteinDistance`, with the components compared by `==`. -/
def levensteinDistance (value other : StateValue F) : Option F :=
  let distance := @Levenstein.generalizedLevensteinDistance F ⟨eq⟩ value.data other.data 1 1 1
  let maxSize := max value.size other.size
  divide (lit distance) (lit maxSize)

/-- The accumulated percentage and the number of keys of `stateDst` that `stateSrc` has
too, after one more entry of `stateDst`. A null value counts in neither. -/
def compareEntry (measure : StateValue F → StateValue F → Option F) (stateSrc : NullableState F) (acc : F × Nat)
    (entry : NullableEntry F) : Option (F × Nat) :=
  match entry.2, stateSrc.at? entry.1 with
  | some valueDst, some valueSrc => (measure valueSrc valueDst).map fun dist => (acc.1 + dist, acc.2 + 1)
  | _, _ => some acc

/-- The body of the two distances that measure the values of the keys of `stateDst`. -/
def meanDistance (measure : StateValue F → StateValue F → Option F) (stateSrc stateDst : NullableState F) : Option F := do
  let s2Count := stateDst.data.length
  let (percent, sameKeyCount) ← stateDst.data.foldlM (compareEntry measure stateSrc) (lit 0, 0)
  let countDifferent := s2Count - sameKeyCount
  divide (percent + lit countDifferent) (lit s2Count)

def numericDistance (stateSrc stateDst : NullableState F) : Option F := meanDistance percentOf stateSrc stateDst

def levensteinStateDistance (stateSrc stateDst : NullableState F) : Option F :=
  meanDistance levensteinDistance stateSrc stateDst

/-- The number of unequal values and the number of common keys, after one more entry of
`state2`. -/
def compareExactly (state1 : NullableState F) (acc : F × Nat) (entry : NullableEntry F) : F × Nat :=
  match entry.2, state1.at? entry.1 with
  | some value2, some value1 => (if value1.equals value2 then acc.1 else acc.1 + lit 1, acc.2 + 1)
  | _, _ => acc

def exactDistance (state1 state2 : NullableState F) : Option F :=
  let s2Count : Int := state2.data.length
  let (percent, sameKeyCount) := state2.data.foldl (compareExactly state1) (lit 0, 0)
  let countDifferent : F := lit (s2Count + state1.data.length - sameKeyCount - sameKeyCount : Int)
  divide (percent + countDifferent) (lit sameKeyCount + countDifferent)

/-- What a value of `state2` adds in `distancePure`. -/
def comparePurely (state1 : NullableState F) (percent : F) (entry : NullableEntry F) : F :=
  match entry.2 with
  | none => percent
  | some value2 => if (state1.at? entry.1).any fun value1 => value1.equals value2 then percent else percent + lit 1

/-- `ExactStateComparer::distancePure`, which has an answer of its own for an empty state. -/
def distancePure (state1 state2 : NullableState F) : Option F :=
  let s2Count := state2.data.length
  let percent := state2.data.foldl (comparePurely state1) (lit 0)
  if s2Count = 0 then some (lit 1) else divide percent (lit s2Count)

end Divided

theorem divide_eq (x y : ℚ) : divide x y = if y = 0 then none else some (x / y) := by
  simp [divide, FloatOps.eq, FloatOps.lit]

theorem divide_isSome_iff (x y : ℚ) : (divide x y).isSome = true ↔ y ≠ 0 := by
  rw [divide_eq]
  split <;> simp_all

theorem divide_of_ne {x y : ℚ} (divisor : y ≠ 0) : divide x y = some (x / y) := by
  rw [divide_eq, if_neg divisor]

theorem divide_of_isSome {x y : ℚ} (quotient : (divide x y).isSome = true) : divide x y = some (x / y) :=
  divide_of_ne ((divide_isSome_iff x y).mp quotient)

theorem lit_natCast (n : Nat) : (lit (n : ℚ) : ℚ) = n := rfl

namespace Divided

theorem floatSimilarity_eq (x y : ℚ) : floatSimilarity x y = some (BasicMath.floatSimilarity x y) := by
  unfold floatSimilarity BasicMath.floatSimilarity
  split
  · rfl
  · simp only
    split
    · rename_i positive
      have divisor : fmax (FloatOps.abs x) (FloatOps.abs y) ≠ 0 := (of_decide_eq_true positive).ne'
      exact divide_of_ne divisor
    · rfl

theorem cosineDistance_eq (value other : StateValue ℚ) : cosineDistance value other = some (value.cosineDistance other) := by
  unfold cosineDistance StateValue.cosineDistance
  generalize StateValue.cosineSums value.data other.data = sums
  obtain ⟨temp, fa, fb⟩ := sums
  simp only
  split
  · rfl
  · rename_i divisor
    have nonzero : sqrt fa * sqrt fb ≠ 0 := by simpa [FloatOps.eq, FloatOps.lit] using divisor
    rw [divide_of_ne nonzero]
    rfl

theorem percentOf_eq (valueSrc valueDst : StateValue ℚ) :
    percentOf valueSrc valueDst = some (NumericStateComparer.percentOf valueSrc valueDst) := by
  unfold percentOf NumericStateComparer.percentOf
  split
  · exact floatSimilarity_eq _ _
  · split
    · rw [cosineDistance_eq]
      obtain ⟨cosDist, thisModule, othersModule⟩ := valueSrc.cosineDistance valueDst
      simp only [Option.bind_eq_bind, Option.bind_some, floatSimilarity_eq]
      rfl
    · rfl

theorem levensteinDistance_isSome_iff (value other : StateValue ℚ) :
    (levensteinDistance value other).isSome = true ↔ value.data ≠ [] ∨ other.data ≠ [] := by
  rw [levensteinDistance, divide_isSome_iff, lit_natCast, Nat.cast_ne_zero, ← Nat.pos_iff_ne_zero, lt_max_iff]
  simp only [StateValue.size, List.length_pos_iff]

section

variable {measure : StateValue ℚ → StateValue ℚ → Option ℚ} {stateSrc stateDst : NullableState ℚ}

/-- The values of both states under the key of an entry have a distance. -/
def Measured (measure : StateValue ℚ → StateValue ℚ → Option ℚ) (stateSrc : NullableState ℚ) (entry : NullableEntry ℚ) :
    Prop :=
  ∀ valueDst valueSrc, entry.2 = some valueDst → stateSrc.at? entry.1 = some valueSrc →
    (measure valueSrc valueDst).isSome = true

theorem compareEntry_isSome_iff (acc : ℚ × Nat) (entry : NullableEntry ℚ) :
    (compareEntry measure stateSrc acc entry).isSome = true ↔ Measured measure stateSrc entry := by
  unfold compareEntry Measured
  cases entry.2 with
  | none => simp
  | some valueDst =>
    cases stateSrc.at? entry.1 with
    | none => simp
    | some valueSrc => simp

theorem foldlM_compareEntry_isSome_iff (entries : List (NullableEntry ℚ)) (acc : ℚ × Nat) :
    (entries.foldlM (compareEntry measure stateSrc) acc).isSome = true ↔
      ∀ entry ∈ entries, Measured measure stateSrc entry := by
  induction entries generalizing acc with
  | nil => simp
  | cons entry rest ih =>
    rw [List.foldlM_cons, List.forall_mem_cons, ← compareEntry_isSome_iff acc]
    cases compareEntry measure stateSrc acc entry with
    | none => simp
    | some next => simpa using ih next

theorem meanDistance_isSome_iff : (meanDistance measure stateSrc stateDst).isSome = true ↔
    stateDst.data ≠ [] ∧ ∀ entry ∈ stateDst.data, Measured measure stateSrc entry := by
  rw [meanDistance, ← foldlM_compareEntry_isSome_iff _ (lit 0, 0), and_comm]
  cases stateDst.data.foldlM (compareEntry measure stateSrc) (lit 0, 0) with
  | none => simp
  | some sums =>
    have entries : (((stateDst.data.length : ℚ)) ≠ 0) ↔ stateDst.data ≠ [] := by simp
    rw [Option.bind_eq_bind, Option.bind_some, divide_isSome_iff, lit_natCast, entries]
    simp

end

theorem numericDistance_isSome_iff (stateSrc stateDst : NullableState ℚ) :
    (numericDistance stateSrc stateDst).isSome = true ↔ stateDst.data ≠ [] := by
  rw [numericDistance, meanDistance_isSome_iff, and_iff_left_iff_imp]
  intro _ entry _ valueDst valueSrc _ _
  rw [percentOf_eq, Option.isSome_some]

theorem levensteinStateDistance_isSome_iff (stateSrc stateDst : NullableState ℚ) :
    (levensteinStateDistance stateSrc stateDst).isSome = true ↔ stateDst.data ≠ [] ∧
      ∀ key valueDst valueSrc, (key, some valueDst) ∈ stateDst.data → stateSrc.at? key = some valueSrc →
        valueSrc.data ≠ [] ∨ valueDst.data ≠ [] := by
  rw [levensteinStateDistance, meanDistance_isSome_iff]
  simp only [Measured, levensteinDistance_isSome_iff]
  constructor
  · rintro ⟨entries, measured⟩
    exact ⟨entries, fun key valueDst valueSrc member found => measured _ member valueDst valueSrc rfl found⟩
  · rintro ⟨entries, measured⟩
    refine ⟨entries, ?_⟩
    rintro ⟨key, value⟩ member valueDst valueSrc rfl found
    exact measured key valueDst valueSrc member found

section

variable {state1 state2 : NullableState ℚ}

theorem compareExactly_count (state1 : NullableState ℚ) (acc : ℚ × Nat) (entry : NullableEntry ℚ) :
    (compareExactly state1 acc entry).2 ≤ acc.2 + 1 ∧
      (state1.data = [] → (compareExactly state1 acc entry).2 = acc.2) := by
  unfold compareExactly
  split
  · rename_i value2 value1 _ found
    refine ⟨le_rfl, ?_⟩
    intro empty
    rw [NullableState.at?, NullableState.find?, empty] at found
    cases found
  · exact ⟨Nat.le_succ _, fun _ => rfl⟩

theorem foldl_compareExactly_count (state1 : NullableState ℚ) (entries : List (NullableEntry ℚ)) (acc : ℚ × Nat) :
    (entries.foldl (compareExactly state1) acc).2 ≤ acc.2 + entries.length ∧
      (state1.data = [] → (entries.foldl (compareExactly state1) acc).2 = acc.2) := by
  induction entries generalizing acc with
  | nil => simp
  | cons entry rest ih =>
    obtain ⟨bound, kept⟩ := ih (compareExactly state1 acc entry)
    obtain ⟨bound', kept'⟩ := compareExactly_count state1 acc entry
    rw [List.foldl_cons, List.length_cons]
    exact ⟨by omega, fun empty => (kept empty).trans (kept' empty)⟩

theorem exactDistance_isSome_iff : (exactDistance state1 state2).isSome = true ↔
    state1.data ≠ [] ∨ state2.data ≠ [] := by
  obtain ⟨bound, none⟩ := foldl_compareExactly_count state1 state2.data (lit 0, 0)
  unfold exactDistance
  generalize state2.data.foldl (compareExactly state1) (lit 0, 0) = sums at bound none
  obtain ⟨percent, sameKeyCount⟩ := sums
  have divisor : (lit (sameKeyCount : ℚ) : ℚ) + lit
      (((state2.data.length : ℤ) + state1.data.length - sameKeyCount - sameKeyCount : ℤ) : ℚ) =
      (((state2.data.length : ℤ) + state1.data.length - sameKeyCount : ℤ) : ℚ) := by
    simp only [FloatOps.lit, id]
    push_cast
    ring
  simp only [divide_isSome_iff]
  rw [divisor, Int.cast_ne_zero, ← List.length_pos_iff, ← List.length_pos_iff]
  simp only [Nat.zero_add] at bound none
  constructor
  · intro nonzero
    omega
  · intro entries
    by_cases empty : state1.data = []
    · have nothing := none empty
      omega
    · have some' := List.length_pos_iff.mpr empty
      omega

end

theorem distancePure_isSome (state1 state2 : NullableState ℚ) : (distancePure state1 state2).isSome = true := by
  unfold distancePure
  simp only
  split
  · rfl
  · rename_i entries
    rw [divide_isSome_iff, lit_natCast, Nat.cast_ne_zero]
    exact entries

section

variable (a b : State ℚ)

theorem at?_ofState (key : StateValue ℚ) : (NullableState.ofState a).at? key = a.find? key := by
  rw [NullableState.at?, NullableState.find?_ofState]
  cases a.find? key <;> rfl

theorem foldlM_map_eq_some {α β γ : Type} {f : γ → β → Option γ} {g : α → β} {h : γ → α → γ}
    (step : ∀ acc x next, f acc (g x) = some next → next = h acc x) {xs : List α} {acc last : γ}
    (ran : (xs.map g).foldlM f acc = some last) : last = xs.foldl h acc := by
  induction xs generalizing acc with
  | nil =>
    cases ran
    rfl
  | cons x xs ih =>
    obtain ⟨next, first, later⟩ := Option.bind_eq_some_iff.mp ran
    rw [List.foldl_cons, ← step acc x next first]
    exact ih later

/-- A mean that is defined is that of the values which the entries are compared with. -/
theorem meanDistance_ofState {measure : StateValue ℚ → StateValue ℚ → Option ℚ}
    (percent : StateValue ℚ → StateValue ℚ → ℚ)
    (measured : ∀ valueSrc valueDst dist, measure valueSrc valueDst = some dist → dist = percent valueSrc valueDst)
    {compare : ℚ × Nat → StateValue ℚ × StateValue ℚ → ℚ × Nat}
    (compared : ∀ acc entry, compare acc entry = match a.find? entry.1 with
      | none => acc
      | some valueSrc => (acc.1 + percent valueSrc entry.2, acc.2 + 1))
    {dist : ℚ} (answered : meanDistance measure (.ofState a) (.ofState b) = some dist) :
    dist = ((b.data.foldl compare (lit 0, 0)).1 + lit ((b.size - (b.data.foldl compare (lit 0, 0)).2 : ℕ) : ℚ)) /
      lit (b.size : ℚ) := by
  have step : ∀ acc entry next, compareEntry measure (.ofState a) acc (Prod.map id some entry) = some next →
      next = compare acc entry := by
    intro acc entry next ran
    simp only [compareEntry, Prod.map_snd, Prod.map_fst, id, at?_ofState] at ran
    rw [compared]
    split at ran
    · rename_i valueDst valueSrc same found
      cases same
      obtain ⟨part, value, rfl⟩ := Option.map_eq_some_iff.mp ran
      rw [found, measured _ _ _ value]
    · rename_i absent
      cases ran
      cases found : a.find? entry.1 with
      | none => rfl
      | some valueSrc => exact absurd found (absent entry.2 valueSrc rfl)
  obtain ⟨sums, ran, quotient⟩ := Option.bind_eq_some_iff.mp answered
  have length : (NullableState.ofState b).data.length = b.size := List.length_map _
  rw [length] at quotient
  have defined := divide_of_isSome (Option.isSome_iff_exists.mpr ⟨_, quotient⟩)
  rw [← foldlM_map_eq_some step ran]
  exact Option.some.inj (quotient.symm.trans defined)

theorem numericDistance_ofState {dist : ℚ} (answered : numericDistance (.ofState a) (.ofState b) = some dist) :
    dist = NumericStateComparer.distance a b := by
  refine meanDistance_ofState a b NumericStateComparer.percentOf ?_ ?_ answered
  · intro valueSrc valueDst part value
    exact Option.some.inj (value.symm.trans (percentOf_eq valueSrc valueDst))
  · intro acc entry
    rw [NumericStateComparer.compareEntry]
    cases a.find? entry.1 <;> rfl

theorem levensteinStateDistance_ofState {dist : ℚ}
    (answered : levensteinStateDistance (.ofState a) (.ofState b) = some dist) :
    dist = LevensteinStateComparer.distance a b := by
  refine meanDistance_ofState a b StateValue.levensteinDistance ?_ ?_ answered
  · intro valueSrc valueDst part value
    have defined := divide_of_isSome (Option.isSome_iff_exists.mpr ⟨part, value⟩)
    exact Option.some.inj (value.symm.trans defined)
  · intro acc entry
    rw [LevensteinStateComparer.compareEntry]
    cases a.find? entry.1 <;> rfl

theorem exactDistance_ofState (entries : a.data ≠ [] ∨ b.data ≠ []) :
    exactDistance (.ofState a) (.ofState b) = some (ExactStateComparer.distance a b) := by
  have step : ∀ (acc : ℚ × Nat) entry, compareExactly (.ofState a) acc (Prod.map id some entry) =
      ExactStateComparer.compareEntry a acc entry := by
    intro acc entry
    unfold compareExactly ExactStateComparer.compareEntry
    simp only [Prod.map_snd, Prod.map_fst, id, at?_ofState]
    cases a.find? entry.1 <;> rfl
  have quotient : (exactDistance (.ofState a) (.ofState b)).isSome = true := by
    rw [exactDistance_isSome_iff]
    simpa [NullableState.ofState] using entries
  rw [exactDistance] at quotient ⊢
  refine (divide_of_isSome quotient).trans ?_
  simp only [NullableState.ofState] at step
  simp only [ExactStateComparer.distance, State.size, NullableState.ofState, List.length_map, List.foldl_map, step]

end

/-- Which distances are no quotient by 0: the exact one unless both states are empty; the
numeric one where the destination has entries; the Levenstein one where the destination
has entries and no key has two empty values; and that of two values unless both are empty. -/
theorem comparers_isSome_iff (state1 state2 : NullableState ℚ) (value other : StateValue ℚ) :
    ((exactDistance state1 state2).isSome = true ↔ state1.data ≠ [] ∨ state2.data ≠ []) ∧
      ((numericDistance state1 state2).isSome = true ↔ state2.data ≠ []) ∧
      ((levensteinStateDistance state1 state2).isSome = true ↔ state2.data ≠ [] ∧
        ∀ key valueDst valueSrc, (key, some valueDst) ∈ state2.data → state1.at? key = some valueSrc →
          valueSrc.data ≠ [] ∨ valueDst.data ≠ []) ∧
      ((levensteinDistance value other).isSome = true ↔ value.data ≠ [] ∨ other.data ≠ []) :=
  ⟨exactDistance_isSome_iff, numericDistance_isSome_iff state1 state2, levensteinStateDistance_isSome_iff state1 state2,
    levensteinDistance_isSome_iff value other⟩

/-- Two new states and two empty values. -/
theorem comparers_isSome_fails : ¬ ∀ (state1 state2 : NullableState ℚ) (value other : StateValue ℚ),
    (exactDistance state1 state2).isSome = true ∧ (numericDistance state1 state2).isSome = true ∧
      (levensteinStateDistance state1 state2).isSome = true ∧ (levensteinDistance value other).isSome = true := by
  intro all
  have defined := (all .new .new ⟨[]⟩ ⟨[]⟩).1
  rw [exactDistance_isSome_iff] at defined
  exact defined.elim (absurd rfl) (absurd rfl)

end Divided

end Goap
