import Goap.Search.Completeness
import Goap.Search.LevelOrder

namespace Goap.Planner

open FloatOps Foundation

variable {c : ℚ}

theorem toInt_ofIntClamp (value : Int) : (Int64.ofIntClamp value).toInt =
    max Int64.minValue.toInt (min value Int64.maxValue.toInt) := by
  have bounds := Int64.le_iff_toInt_le.mp (Int64.le_maxValue Int64.minValue)
  unfold Int64.ofIntClamp
  split
  · split
    · rw [Int64.toInt_ofIntLE]
      omega
    · omega
  · omega

theorem bucketAt_eq (nonneg : 0 ≤ c) (depth : Nat) : bucketAt c depth =
    max Int64.minValue.toInt (min ⌊100 * (c * depth) + 1 / 2⌋ Int64.maxValue.toInt) := by
  have positive : 0 ≤ 100 * (c * depth) + 1 / 2 := by positivity
  rw [← toInt_ofIntClamp, Rat.floor_def', ← Int.tdiv_eq_ediv_of_nonneg (Rat.num_nonneg.mpr positive)]
  rfl

theorem bucketAt_mono (nonneg : 0 ≤ c) {depth depth' : Nat} (bound : depth ≤ depth') :
    bucketAt c depth ≤ bucketAt c depth' := by
  have costs : 100 * (c * depth) + 1 / 2 ≤ 100 * (c * depth') + 1 / 2 := by gcongr
  have rounded := Int.floor_le_floor costs
  rw [bucketAt_eq nonneg, bucketAt_eq nonneg]
  omega

theorem bucketAt_lt_succ (step : 1 / 100 ≤ c) {depth : Nat}
    (fits : 100 * (c * (depth + 1)) + 1 / 2 < 2 ^ 63) : bucketAt c depth < bucketAt c (depth + 1) := by
  have nonneg : 0 ≤ c := by linarith
  have costs : 100 * (c * depth) + 1 / 2 + 1 ≤ 100 * (c * (depth + 1)) + 1 / 2 := by nlinarith
  have rounded := Int.floor_le_floor costs
  rw [Int.floor_add_one] at rounded
  have below : ⌊100 * (c * (depth + 1)) + 1 / 2⌋ < 2 ^ 63 := by
    rw [Int.floor_lt]
    exact_mod_cast fits
  have above : 0 ≤ ⌊100 * (c * depth) + 1 / 2⌋ := Int.floor_nonneg.mpr (by positivity)
  have lowest : Int64.minValue.toInt = -2 ^ 63 := by decide
  have highest : Int64.maxValue.toInt = 2 ^ 63 - 1 := by decide
  rw [bucketAt_eq nonneg, bucketAt_eq nonneg, lowest, highest]
  push_cast at rounded below ⊢
  omega

def hop (source target : ℚ) : PlanningAction ℚ where
  name := "hop"
  validator state := .ok (if state.find? (.scalar 0) = some (.scalar source) then 1 else 0)
  executor state := .ok (state.put (.scalar 0) (.scalar target))

def hopper (planningMethod : PlanningMethod) : Planner ℚ :=
  ⟨planningMethod, [hop 0 1, hop 0 3, hop 3 4, hop 3 5, hop 1 9, hop 5 9], none⟩

/-- Position 9 is enough and no distance is measured. -/
def nineMeter : PlanningStateMeter ℚ where
  goalState := State.new.put (.scalar 0) (.scalar 9)
  monotonic := false
  distance _ := .ok 0
  enough state := .ok (state.find? (.scalar 0) == some (.scalar 9))

def standing (position : ℚ) : State ℚ := State.new.put (.scalar 0) (.scalar position)

def IsPosition (x : ℚ) : Prop := x ∈ ([0, 1, 3, 4, 5, 9] : List ℚ)

theorem exactOn_isPosition : ExactOn IsPosition := by
  intro x y left right
  have table : ∀ x ∈ ([0, 1, 3, 4, 5, 9] : List ℚ), ∀ y ∈ ([0, 1, 3, 4, 5, 9] : List ℚ),
      (BasicMath.floatEqual x y = true ↔ x = y) := by decide +kernel
  exact table x left y right

theorem isPosition_scalar {x : ℚ} (position : IsPosition x) : (StateValue.scalar x).Within IsPosition := by
  intro y member
  rwa [List.mem_singleton.mp member]

theorem hop_of_mem {method : PlanningMethod} {action : PlanningAction ℚ}
    (member : action ∈ (hopper method).planningActions) :
    ∃ source target, action = hop source target ∧ IsPosition target := by
  simp only [hopper, List.mem_cons, List.not_mem_nil, or_false] at member
  rcases member with rfl | rfl | rfl | rfl | rfl | rfl <;>
    exact ⟨_, _, rfl, by simp [IsPosition]⟩

theorem hopper_readsEntries (method : PlanningMethod) :
    ReadsEntries IsPosition (hopper method) nineMeter (standing 0) where
  within state reachable := by
    apply reachable.invariant
    · exact State.within_new.put (isPosition_scalar (by simp [IsPosition])) (isPosition_scalar (by simp [IsPosition]))
    · rintro state next within ⟨action, member, _, executed⟩
      obtain ⟨source, target, rfl, position⟩ := hop_of_mem member
      cases executed
      rw [State.clone_eq]
      apply State.Within.put _ (isPosition_scalar (by simp [IsPosition])) (isPosition_scalar position)
      exact within
  allowed action member state other within same := by
    obtain ⟨source, target, rfl, _⟩ := hop_of_mem member
    simp only [PlanningAction.canExecute, hop,
      same.find?_eq exactOn_isPosition within (isPosition_scalar (x := 0) (by simp [IsPosition]))]
  executed action member state other within alike := by
    obtain ⟨source, target, rfl, _⟩ := hop_of_mem member
    refine .ok ⟨?_, alike.cost⟩
    exact alike.same.put exactOn_isPosition within (isPosition_scalar (by simp [IsPosition])) _
  enough state other within same := by
    simp only [nineMeter, same.find?_eq exactOn_isPosition within (isPosition_scalar (x := 0) (by simp [IsPosition]))]
  answers state _ := ⟨_, rfl⟩
  measures state _ := ⟨_, rfl⟩

theorem hopper_uniform (method : PlanningMethod) : Uniform (hopper method) nineMeter (standing 0) 0 :=
  fun _ next _ _ => ⟨0, rfl, zero_mul next.cost⟩

def farMeter : PlanningStateMeter ℚ := { nineMeter with distance _ := .ok 1 }

theorem hopper_readsEntries_far (method : PlanningMethod) :
    ReadsEntries IsPosition (hopper method) farMeter (standing 0) where
  within := (hopper_readsEntries method).within
  allowed := (hopper_readsEntries method).allowed
  executed := (hopper_readsEntries method).executed
  enough := (hopper_readsEntries method).enough
  answers := (hopper_readsEntries method).answers
  measures _ _ := ⟨_, rfl⟩

theorem hopper_uniform_far (method : PlanningMethod) : Uniform (hopper method) farMeter (standing 0) 1 := by
  intro state next _ moves
  obtain ⟨action, member, _, executed⟩ := moves
  obtain ⟨source, target, rfl, _⟩ := hop_of_mem member
  cases executed
  exact ⟨1, rfl, one_mul 1⟩

theorem hops_executes : Executes (standing 0) [hop 0 1, hop 1 9] [standing 1, standing 9] := by
  refine .cons (by decide +kernel) ?_ (.cons (by decide +kernel) ?_ .nil)
  · exact congrArg Except.ok (State.ext_data (by decide +kernel) rfl)
  · exact congrArg Except.ok (State.ext_data (by decide +kernel) rfl)

theorem hopper_notEnough : nineMeter.enough (standing 0) = .ok false := by decide +kernel

theorem hops_enough : nineMeter.enough (reached (standing 0) [standing 1, standing 9]) = .ok true := by
  decide +kernel

theorem hops_known (method : PlanningMethod) :
    ∀ action ∈ [hop 0 1, hop 1 9], action ∈ (hopper method).planningActions := by
  simp [hopper]

end Goap.Planner
