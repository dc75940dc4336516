import Goap.Search.PlanningAction

namespace Goap

open FloatOps BasicMath

variable {F : Type} [FloatOps F]

namespace StateValue

/-- The sums of `CosineDistance`: the inner product and both squared modules. -/
def cosineSums (these others : List F) : F × F × F :=
  (these.zip others).foldl (fun (temp, fa, fb) (va, vb) => (temp + va * vb, fa + va * va, fb + vb * vb))
    (lit 0, lit 0, lit 0)

/-- `cosineDistance`, on the components that both values have, with the two
modules: 1 means the same direction, 0 that they are different. -/
def cosineDistance (value other : StateValue F) : F × F × F :=
  let (temp, fa, fb) := cosineSums value.data other.data
  let fDen := sqrt fa * sqrt fb
  (if eq fDen (lit 0) then lit 0 else temp / fDen, sqrt fa, sqrt fb)

end StateValue

namespace NumericStateComparer

/-- Every entry of the goal is found in the state and equal there. -/
def enough (stateSrc stateDst : State F) : Bool :=
  stateDst.data.all fun entry =>
    match stateSrc.find? entry.1 with
    | none => false
    | some value => entry.2.equals value

/-- What a key of both states adds to the distance. -/
def percentOf (valueSrc valueDst : StateValue F) : F :=
  if valueDst.size = 1 ∧ valueSrc.size = 1 then
    floatSimilarity (valueSrc.atInt64 0) (valueDst.atInt64 0)
  else if 1 ≤ valueDst.size ∧ 1 ≤ valueSrc.size then
    let (cosDist, thisModule, othersModule) := valueSrc.cosineDistance valueDst
    let similarity := lit 1 - floatSimilarity thisModule othersModule
    fmax (lit 0) (lit 1 - cosDist * similarity)
  else lit 1

/-- The accumulated percentage and the number of keys of `stateDst` that
`stateSrc` has too, after one more entry of `stateDst`. -/
def compareEntry (stateSrc : State F) (acc : F × Nat) (entry : StateValue F × StateValue F) : F × Nat :=
  match stateSrc.find? entry.1 with
  | none => acc
  | some valueSrc => (acc.1 + percentOf valueSrc entry.2, acc.2 + 1)

def distance (stateSrc stateDst : State F) : F :=
  let s2Count := stateDst.size
  let (percent, sameKeyCount) := stateDst.data.foldl (compareEntry stateSrc) (lit 0, 0)
  let countDifferent := s2Count - sameKeyCount
  (percent + lit countDifferent) / lit s2Count

@[simp] theorem enough_setCost (state goal : State F) (cost : F) :
    enough (state.setCost cost) goal = enough state goal := rfl

/-- A non-empty state of scalars is at distance 0 from itself, in exact arithmetic. -/
theorem distance_self {state : State ℚ} (scalars : ∀ entry ∈ state.data, entry.2.size = 1)
    (found : ∀ entry ∈ state.data, state.find? entry.1 = some entry.2) : distance state state = 0 := by
  have similar : ∀ x : ℚ, floatSimilarity x x = 0 := by
    intro x
    simp [floatSimilarity, FloatOps.isnan, FloatOps.abs, FloatOps.lit]
  have compared : ∀ entries : List (StateValue ℚ × StateValue ℚ), (∀ entry ∈ entries, entry ∈ state.data) →
      ∀ count, entries.foldl (compareEntry state) (0, count) = (0, count + entries.length) := by
    intro entries
    induction entries with
    | nil => simp
    | cons entry rest ih =>
      intro inside count
      have member := inside entry (by simp)
      have step : compareEntry state (0, count) entry = (0, count + 1) := by
        simp [compareEntry, found entry member, percentOf, scalars entry member, similar]
      rw [List.foldl_cons, step, ih (fun entry member => inside entry (by simp [member]))]
      simp [Nat.add_assoc, Nat.add_comm 1]
  unfold distance
  rw [show (lit 0 : ℚ) = 0 from rfl, compared state.data (fun _ member => member) 0]
  simp [State.size, FloatOps.lit]

end NumericStateComparer

/-- `ComparerStateMeter` with the numeric comparer. -/
def comparerStateMeter (goalState : State F) : PlanningStateMeter F where
  goalState
  monotonic := false
  distance state := .ok (NumericStateComparer.distance state goalState)
  enough state := .ok (NumericStateComparer.enough state goalState)

end Goap
