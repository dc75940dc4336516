import Goap.Foundation.EditDistance
import Goap.State.State
import Mathlib.Data.List.Induction

/-! `GeneralizedLevensteinDistance`: one row of distances, updated in place for each
element of the target, against the cost of a cheapest edit script. -/

namespace Goap

open FloatOps Foundation

namespace Levenstein

section

variable {α : Type} [BEq α] (insert_cost delete_cost replace_cost : Nat)

/-- The vector before the first element of the target: `lev_dist[i] = lev_dist[i - 1] + delete_cost`. -/
def firstRow (min_size : Nat) : List Nat :=
  (List.range min_size).foldl (fun lev_dist i => lev_dist.set (i + 1) (lev_dist.getD i 0 + delete_cost))
    (List.replicate (min_size + 1) 0)

/-- One round of the inner loop for an element of the source and its position:
`lev_dist` and `previous_diagonal`. -/
def innerStep (y : α) (acc : List Nat × Nat) (element : α × Nat) : List Nat × Nat :=
  let (lev_dist, previous_diagonal) := acc
  let (x, i) := element
  let previous_diagonal_save := lev_dist.getD (i + 1) 0
  let dist :=
    if x == y then previous_diagonal
    else min (min (lev_dist.getD i 0 + delete_cost) (previous_diagonal_save + insert_cost))
      (previous_diagonal + replace_cost)
  (lev_dist.set (i + 1) dist, previous_diagonal_save)

def outerStep (source : List α) (lev_dist : List Nat) (y : α) : List Nat :=
  let previous_diagonal := lev_dist.getD 0 0
  (source.zipIdx.foldl (innerStep insert_cost delete_cost replace_cost y)
    (lev_dist.set 0 (previous_diagonal + insert_cost), previous_diagonal)).1

end

def generalizedLevensteinDistance {α : Type} [BEq α] (source target : List α)
    (insert_cost delete_cost replace_cost : Nat) : Nat :=
  if target.length < source.length then
    generalizedLevensteinDistance target source delete_cost insert_cost replace_cost
  else
    (target.foldl (outerStep insert_cost delete_cost replace_cost source)
      (firstRow delete_cost source.length)).getD source.length 0
termination_by source.length - target.length

variable {α : Type} [DecidableEq α] {costs : EditCosts} {source reached : List α}

/-- The vector holds the distances from the prefixes of the source to what has been
reached of the target, up to a position to the longer and beyond it to the shorter. -/
structure Rows (costs : EditCosts) (source done reached : List α) (y : α) (lev_dist : List Nat) : Prop where
  length : lev_dist.length = source.length + 1
  below : ∀ i ≤ done.length, lev_dist.getD i 0 = editDistance costs (source.take i) (reached ++ [y])
  above : ∀ i, done.length < i → i ≤ source.length →
    lev_dist.getD i 0 = editDistance costs (source.take i) reached

/-- The vector holds the distances from all prefixes of the source. -/
structure Row (costs : EditCosts) (source reached : List α) (lev_dist : List Nat) : Prop where
  length : lev_dist.length = source.length + 1
  entries : ∀ i ≤ source.length, lev_dist.getD i 0 = editDistance costs (source.take i) reached

theorem getD_set (row : List Nat) (i j value : Nat) (inside : i < row.length) :
    (row.set i value).getD j 0 = if i = j then value else row.getD j 0 := by
  rw [List.getD_eq_getElem?_getD, List.getD_eq_getElem?_getD, List.getElem?_set]
  by_cases same : i = j
  · subst same
    simp [inside]
  · simp [same]

theorem row_firstRow (costs : EditCosts) (source : List α) :
    Row costs source [] (firstRow costs.delete source.length) := by
  suffices filled : ∀ count ≤ source.length,
      ((List.range count).foldl (fun lev_dist i => lev_dist.set (i + 1) (lev_dist.getD i 0 + costs.delete))
        (List.replicate (source.length + 1) 0)).length = source.length + 1 ∧
      ∀ i ≤ count, ((List.range count).foldl (fun lev_dist i => lev_dist.set (i + 1) (lev_dist.getD i 0 + costs.delete))
        (List.replicate (source.length + 1) 0)).getD i 0 = editDistance costs (source.take i) [] by
    obtain ⟨length, entries⟩ := filled source.length le_rfl
    exact ⟨length, entries⟩
  intro count
  induction count with
  | zero =>
    intro _
    refine ⟨by simp, ?_⟩
    intro i none
    simp [Nat.le_zero.mp none, editDistance]
  | succ count ih =>
    intro bound
    obtain ⟨length, entries⟩ := ih (by omega)
    rw [List.range_succ, List.foldl_append, List.foldl_cons, List.foldl_nil]
    refine ⟨by rw [List.length_set, length], ?_⟩
    intro i below
    rw [getD_set _ _ _ _ (by omega), entries count le_rfl]
    split
    · rename_i same
      subst same
      rw [List.take_succ_eq_append_getElem bound, editDistance_concat_nil, Nat.add_comm]
    · exact entries i (by omega)

/-- One round of the inner loop moves the border between the two rows by one. -/
theorem rows_innerStep {done rest : List α} {x y : α} {lev_dist : List Nat} {previous_diagonal : Nat}
    (split : source = done ++ x :: rest) (rows : Rows costs source done reached y lev_dist)
    (diagonal : previous_diagonal = editDistance costs done reached) :
    let acc := innerStep costs.insert costs.delete costs.replace y (lev_dist, previous_diagonal) (x, done.length)
    Rows costs source (done ++ [x]) reached y acc.1 ∧ acc.2 = editDistance costs (done ++ [x]) reached := by
  have size : source.length = done.length + 1 + rest.length := by
    rw [split, List.length_append, List.length_cons]
    omega
  have short : source.take done.length = done := by
    rw [split, List.take_left]
  have longer : source.take (done.length + 1) = done ++ [x] := by
    rw [split, List.take_append]
    simp
  have deleted := rows.below done.length le_rfl
  have inserted := rows.above (done.length + 1) (by omega) (by omega)
  rw [short] at deleted
  rw [longer] at inserted
  have cheapest : (if x == y then previous_diagonal
      else min (min (lev_dist.getD done.length 0 + costs.delete) (lev_dist.getD (done.length + 1) 0 + costs.insert))
        (previous_diagonal + costs.replace)) = editDistance costs (done ++ [x]) (reached ++ [y]) := by
    by_cases same : x = y
    · subst same
      simp [diagonal, editDistance_concat_self]
    · rw [editDistance_concat _ _ _ _ same, deleted, inserted, diagonal]
      simp [same, Nat.add_comm]
  refine ⟨⟨?_, ?_, ?_⟩, inserted⟩
  · rw [innerStep, List.length_set, rows.length]
  · intro i below
    rw [innerStep, getD_set _ _ _ _ (by rw [rows.length]; omega)]
    split
    · rename_i here
      rw [← here, longer]
      exact cheapest
    · rw [List.length_append, List.length_singleton] at below
      exact rows.below i (by omega)
  · intro i above bound
    rw [List.length_append, List.length_singleton] at above
    rw [innerStep, getD_set _ _ _ _ (by rw [rows.length]; omega), if_neg (by omega)]
    exact rows.above i (by omega) bound

/-- The inner loop turns the row for a part of the target into the row for one more
element. The induction goes over what is left of the source. -/
theorem row_outerStep {lev_dist : List Nat} (row : Row costs source reached lev_dist) (y : α) :
    Row costs source (reached ++ [y]) (outerStep costs.insert costs.delete costs.replace source lev_dist y) := by
  suffices loop : ∀ (rest done : List α) (acc : List Nat × Nat), source = done ++ rest →
      Rows costs source done reached y acc.1 → acc.2 = editDistance costs done reached →
      Row costs source (reached ++ [y])
        ((rest.zipIdx done.length).foldl (innerStep costs.insert costs.delete costs.replace y) acc).1 by
    apply loop source [] _ rfl
    · refine ⟨by rw [List.length_set, row.length], ?_, ?_⟩
      · intro i none
        rw [Nat.le_zero.mp none, getD_set _ _ _ _ (by rw [row.length]; omega), if_pos rfl, row.entries 0 (Nat.zero_le _),
          List.take_zero, editDistance_nil_concat, Nat.add_comm]
      · intro i above bound
        rw [getD_set _ _ _ _ (by rw [row.length]; omega), if_neg (by simp at above; omega)]
        exact row.entries i bound
    · exact row.entries 0 (Nat.zero_le _)
  intro rest
  induction rest with
  | nil =>
    intro done acc split rows _
    rw [List.append_nil] at split
    subst split
    exact ⟨rows.length, rows.below⟩
  | cons x rest ih =>
    intro done acc split rows diagonal
    obtain ⟨moved, next⟩ := rows_innerStep split rows diagonal
    rw [List.zipIdx_cons, List.foldl_cons]
    have later := ih (done ++ [x]) _ (by rw [split, List.append_assoc]; rfl) moved next
    rwa [List.length_append, List.length_singleton] at later

theorem row_outerLoop (costs : EditCosts) (source target : List α) :
    Row costs source target (target.foldl (outerStep costs.insert costs.delete costs.replace source)
      (firstRow costs.delete source.length)) := by
  induction target using List.reverseRecOn with
  | nil => exact row_firstRow costs source
  | append_singleton target y ih =>
    rw [List.foldl_append]
    exact row_outerStep ih y

theorem generalizedLevensteinDistance_eq (source target : List α) (insert_cost delete_cost replace_cost : Nat) :
    generalizedLevensteinDistance source target insert_cost delete_cost replace_cost =
      editDistance ⟨insert_cost, delete_cost, replace_cost⟩ source target := by
  have rows : ∀ (source target : List α) (costs : EditCosts), source.length ≤ target.length →
      generalizedLevensteinDistance source target costs.insert costs.delete costs.replace =
        editDistance costs source target := by
    intro source target costs short
    rw [generalizedLevensteinDistance, if_neg (by omega), (row_outerLoop costs source target).entries _ le_rfl,
      List.take_length]
  by_cases longer : target.length < source.length
  · rw [generalizedLevensteinDistance, if_pos longer, ← editDistance_back]
    exact rows target source ⟨delete_cost, insert_cost, replace_cost⟩ longer.le
  · exact rows source target ⟨insert_cost, delete_cost, replace_cost⟩ (Nat.not_lt.mp longer)

/-- `GeneralizedLevensteinDistance` is the cost of a cheapest sequence of insertions,
deletions and replacements, for any costs and whichever sequence is longer. -/
theorem isLeast_generalizedLevensteinDistance (source target : List α) (insert_cost delete_cost replace_cost : Nat) :
    IsLeast {cost | EditsTo ⟨insert_cost, delete_cost, replace_cost⟩ source target cost}
      (generalizedLevensteinDistance source target insert_cost delete_cost replace_cost) := by
  rw [generalizedLevensteinDistance_eq]
  exact isLeast_editDistance ⟨insert_cost, delete_cost, replace_cost⟩ source target

end Levenstein

variable {F : Type} [FloatOps F]

/-- `StateValue::levensteinDistance`, with the components compared by `==`. -/
def StateValue.levensteinDistance (value other : StateValue F) : F :=
  let distance := @Levenstein.generalizedLevensteinDistance F ⟨eq⟩ value.data other.data 1 1 1
  let maxSize := max value.size other.size
  lit distance / lit maxSize

namespace LevensteinStateComparer

/-- The accumulated percentage and the number of common keys after one more entry of
`stateDst`. -/
def compareEntry (stateSrc : State F) (acc : F × Nat) (entry : StateValue F × StateValue F) : F × Nat :=
  match stateSrc.find? entry.1 with
  | none => acc
  | some valueSrc => (acc.1 + valueSrc.levensteinDistance entry.2, acc.2 + 1)

def distance (stateSrc stateDst : State F) : F :=
  let s2Count := stateDst.size
  let (percent, sameKeyCount) := stateDst.data.foldl (compareEntry stateSrc) (lit 0, 0)
  let countDifferent := s2Count - sameKeyCount
  (percent + lit countDifferent) / lit s2Count

end LevensteinStateComparer

end Goap
