import Mathlib.Order.Bounds.Basic
import Mathlib.Order.MinMax

namespace Goap.Foundation

variable {α : Type*}

/-- What one insertion, deletion or replacement costs. -/
structure EditCosts where
  insert : ℕ
  delete : ℕ
  replace : ℕ

def EditCosts.back (costs : EditCosts) : EditCosts := ⟨costs.delete, costs.insert, costs.replace⟩

/-- One edit of a list, with its cost. -/
inductive EditStep (costs : EditCosts) : List α → List α → ℕ → Prop
  | insert (before after : List α) (x : α) : EditStep costs (before ++ after) (before ++ x :: after) costs.insert
  | delete (before after : List α) (x : α) : EditStep costs (before ++ x :: after) (before ++ after) costs.delete
  | replace (before after : List α) (x y : α) :
      EditStep costs (before ++ x :: after) (before ++ y :: after) costs.replace

/-- A sequence of edits that turns one list into another, with its total cost. -/
inductive EditsTo (costs : EditCosts) : List α → List α → ℕ → Prop
  | refl (source : List α) : EditsTo costs source source 0
  | step {source middle target : List α} {cost rest : ℕ} (first : EditStep costs source middle cost)
      (later : EditsTo costs middle target rest) : EditsTo costs source target (cost + rest)

variable {costs : EditCosts} {source middle target : List α} {cost rest : ℕ}

theorem EditStep.cons (head : α) (step : EditStep costs source target cost) :
    EditStep costs (head :: source) (head :: target) cost := by
  cases step with
  | insert before after x => exact .insert (head :: before) after x
  | delete before after x => exact .delete (head :: before) after x
  | replace before after x y => exact .replace (head :: before) after x y

theorem EditStep.back (step : EditStep costs source target cost) : EditStep costs.back target source cost := by
  cases step with
  | insert before after x => exact .delete before after x
  | delete before after x => exact .insert before after x
  | replace before after x y => exact .replace before after y x

theorem EditStep.reverse (step : EditStep costs source target cost) :
    EditStep costs source.reverse target.reverse cost := by
  cases step with
  | insert before after x =>
    have mirrored : EditStep costs _ _ costs.insert := .insert after.reverse before.reverse x
    simpa using mirrored
  | delete before after x => simpa using EditStep.delete after.reverse before.reverse x
  | replace before after x y => simpa using EditStep.replace after.reverse before.reverse x y

namespace EditsTo

theorem single (step : EditStep costs source target cost) : EditsTo costs source target cost := .step step (.refl _)

theorem trans (first : EditsTo costs source middle cost) (later : EditsTo costs middle target rest) :
    EditsTo costs source target (cost + rest) := by
  induction first with
  | refl => simpa using later
  | step edit _ ih =>
    rw [Nat.add_assoc]
    exact .step edit (ih later)

theorem cons (head : α) (edits : EditsTo costs source target cost) :
    EditsTo costs (head :: source) (head :: target) cost := by
  induction edits with
  | refl source => exact .refl _
  | step edit _ ih => exact .step (edit.cons head) ih

theorem back (edits : EditsTo costs source target cost) : EditsTo costs.back target source cost := by
  induction edits with
  | refl source => exact .refl _
  | step edit _ ih =>
    rw [Nat.add_comm]
    exact ih.trans (single edit.back)

theorem reverse (edits : EditsTo costs source target cost) :
    EditsTo costs source.reverse target.reverse cost := by
  induction edits with
  | refl source => exact .refl _
  | step edit _ ih => exact .step edit.reverse ih

end EditsTo

variable [DecidableEq α]

/-- The cost of a cheapest sequence of edits. -/
def editDistance (costs : EditCosts) : List α → List α → ℕ
  | [], [] => 0
  | [], _ :: target => costs.insert + editDistance costs [] target
  | _ :: source, [] => costs.delete + editDistance costs source []
  | x :: source, y :: target =>
    min (min (costs.delete + editDistance costs source (y :: target))
      (costs.insert + editDistance costs (x :: source) target))
      ((if x = y then 0 else costs.replace) + editDistance costs source target)

theorem editDistance_delete (costs : EditCosts) (x : α) (source target : List α) :
    editDistance costs (x :: source) target ≤ costs.delete + editDistance costs source target := by
  cases target with
  | nil => rw [editDistance]
  | cons y target =>
    rw [editDistance]
    exact (min_le_left _ _).trans (min_le_left _ _)

theorem editDistance_insert (costs : EditCosts) (y : α) (source target : List α) :
    editDistance costs source (y :: target) ≤ costs.insert + editDistance costs source target := by
  cases source with
  | nil => rw [editDistance]
  | cons x source =>
    rw [editDistance]
    exact (min_le_left _ _).trans (min_le_right _ _)

theorem editDistance_keep (costs : EditCosts) (x y : α) (source target : List α) :
    editDistance costs (x :: source) (y :: target) ≤
      (if x = y then 0 else costs.replace) + editDistance costs source target := by
  rw [editDistance]
  exact min_le_right _ _

theorem le_editDistance_cons {bound : ℕ} {x y : α} {source target : List α}
    (delete : bound ≤ costs.delete + editDistance costs source (y :: target))
    (insert : bound ≤ costs.insert + editDistance costs (x :: source) target)
    (keep : bound ≤ (if x = y then 0 else costs.replace) + editDistance costs source target) :
    bound ≤ editDistance costs (x :: source) (y :: target) := by
  rw [editDistance]
  exact le_min (le_min delete insert) keep

/-- An edit saves no more than it costs. The induction goes over the target; the lists
begin with the place of the edit. -/
theorem editDistance_le_insert_add (x : α) (after target : List α) :
    editDistance costs after target ≤ costs.insert + editDistance costs (x :: after) target := by
  induction target with
  | nil =>
    rw [editDistance]
    omega
  | cons y target ih =>
    have inserted := editDistance_insert costs y after target
    have cheapest : editDistance costs after (y :: target) - costs.insert ≤
        editDistance costs (x :: after) (y :: target) := by
      apply le_editDistance_cons <;> omega
    omega

theorem editDistance_le_replace_add (x y : α) (after target : List α) :
    editDistance costs (x :: after) target ≤ costs.replace + editDistance costs (y :: after) target := by
  induction target with
  | nil =>
    rw [editDistance, editDistance]
    omega
  | cons z target ih =>
    have deleted := editDistance_delete costs x after (z :: target)
    have inserted := editDistance_insert costs z (x :: after) target
    have kept := editDistance_keep costs x z after target
    have replaced : (if x = z then 0 else costs.replace) ≤ costs.replace := by
      split <;> omega
    have cheapest : editDistance costs (x :: after) (z :: target) - costs.replace ≤
        editDistance costs (y :: after) (z :: target) := by
      apply le_editDistance_cons <;> omega
    omega

/-- What holds of two lists for every target holds with one more head before them. -/
theorem editDistance_cons_le_add {source middle : List α} {cost : ℕ}
    (saves : ∀ target, editDistance costs source target ≤ cost + editDistance costs middle target)
    (head : α) (target : List α) :
    editDistance costs (head :: source) target ≤ cost + editDistance costs (head :: middle) target := by
  induction target with
  | nil =>
    have rest := saves []
    rw [editDistance, editDistance]
    omega
  | cons y target ih =>
    have deleted := editDistance_delete costs head source (y :: target)
    have inserted := editDistance_insert costs y (head :: source) target
    have kept := editDistance_keep costs head y source target
    have whole := saves (y :: target)
    have rest := saves target
    have cheapest : editDistance costs (head :: source) (y :: target) - cost ≤
        editDistance costs (head :: middle) (y :: target) := by
      apply le_editDistance_cons <;> omega
    omega

theorem EditStep.editDistance_le (step : EditStep costs source middle cost) (target : List α) :
    editDistance costs source target ≤ cost + editDistance costs middle target := by
  cases step with
  | insert before after x =>
    induction before generalizing target with
    | nil => exact editDistance_le_insert_add x after target
    | cons head before ih => exact editDistance_cons_le_add ih head target
  | delete before after x =>
    induction before generalizing target with
    | nil => exact editDistance_delete costs x after target
    | cons head before ih => exact editDistance_cons_le_add ih head target
  | replace before after x y =>
    induction before generalizing target with
    | nil => exact editDistance_le_replace_add x y after target
    | cons head before ih => exact editDistance_cons_le_add ih head target

theorem editDistance_self (source : List α) : editDistance costs source source = 0 := by
  induction source with
  | nil => rw [editDistance]
  | cons x source ih =>
    have kept := editDistance_keep costs x x source source
    rw [if_pos rfl, ih] at kept
    omega

theorem EditsTo.editDistance_le (edits : EditsTo costs source target cost) :
    editDistance costs source target ≤ cost := by
  induction edits with
  | refl source => rw [editDistance_self]
  | step edit _ ih => exact (edit.editDistance_le _).trans (Nat.add_le_add_left ih _)

/-- Some sequence of edits costs the distance. -/
theorem editsTo_editDistance (costs : EditCosts) (source target : List α) :
    EditsTo costs source target (editDistance costs source target) := by
  fun_induction editDistance costs source target with
  | case1 => exact .refl []
  | case2 y target ih =>
    rw [Nat.add_comm]
    exact ih.trans (.single (.insert [] target y))
  | case3 x source ih => exact .step (.delete [] source x) ih
  | case4 x source y target ihDelete ihInsert ihKeep =>
    have deleted : EditsTo costs (x :: source) (y :: target) _ := .step (.delete [] source x) ihDelete
    have inserted := ihInsert.trans (.single (.insert [] target y))
    rw [Nat.add_comm] at inserted
    have kept : EditsTo costs (x :: source) (y :: target)
        ((if x = y then 0 else costs.replace) + editDistance costs source target) := by
      split
      · rename_i same
        rw [same, Nat.zero_add]
        exact ihKeep.cons y
      · exact .step (.replace [] source x y) (ihKeep.cons y)
    rcases min_choice (min (costs.delete + editDistance costs source (y :: target))
      (costs.insert + editDistance costs (x :: source) target))
      ((if x = y then 0 else costs.replace) + editDistance costs source target) with least | least
    · rw [least]
      rcases min_choice (costs.delete + editDistance costs source (y :: target))
        (costs.insert + editDistance costs (x :: source) target) with least | least
      · rw [least]
        exact deleted
      · rw [least]
        exact inserted
    · rw [least]
      exact kept

theorem isLeast_editDistance (costs : EditCosts) (source target : List α) :
    IsLeast {cost | EditsTo costs source target cost} (editDistance costs source target) :=
  ⟨editsTo_editDistance costs source target, fun _ edits => edits.editDistance_le⟩

theorem editDistance_triangle (costs : EditCosts) (source middle target : List α) :
    editDistance costs source target ≤ editDistance costs source middle + editDistance costs middle target :=
  ((editsTo_editDistance costs source middle).trans (editsTo_editDistance costs middle target)).editDistance_le

theorem editDistance_back (costs : EditCosts) (source target : List α) :
    editDistance costs.back target source = editDistance costs source target := by
  apply le_antisymm
  · exact (editsTo_editDistance costs source target).back.editDistance_le
  · exact (editsTo_editDistance costs.back target source).back.editDistance_le

theorem editDistance_reverse (source target : List α) :
    editDistance costs source.reverse target.reverse = editDistance costs source target := by
  apply le_antisymm
  · exact (editsTo_editDistance costs source target).reverse.editDistance_le
  · simpa using (editsTo_editDistance costs source.reverse target.reverse).reverse.editDistance_le

/-- Equal heads are kept, whatever the costs: to delete the one and insert the other
is no cheaper, nor is to match one of them elsewhere. -/
theorem editDistance_cons_self (x : α) (source target : List α) :
    editDistance costs (x :: source) (x :: target) = editDistance costs source target := by
  have kept := editDistance_keep costs x x source target
  rw [if_pos rfl, Nat.zero_add] at kept
  apply le_antisymm kept
  apply le_editDistance_cons
  · -- the target's head is deleted after it has been reached
    have detour := editDistance_triangle costs source (x :: target) target
    have deleted := editDistance_delete costs x target target
    rw [editDistance_self] at deleted
    omega
  · exact editDistance_le_insert_add x source target
  · rw [if_pos rfl, Nat.zero_add]

section

variable (source target : List α) (x y : α)

theorem editDistance_concat_nil :
    editDistance costs (source ++ [x]) [] = costs.delete + editDistance costs source [] := by
  rw [← editDistance_reverse (source ++ [x]), ← editDistance_reverse source, List.reverse_concat, List.reverse_nil,
    editDistance]

theorem editDistance_nil_concat :
    editDistance costs [] (target ++ [y]) = costs.insert + editDistance costs [] target := by
  rw [← editDistance_reverse [] (target ++ [y]), ← editDistance_reverse [] target, List.reverse_concat,
    List.reverse_nil, editDistance]

theorem editDistance_concat_self :
    editDistance costs (source ++ [x]) (target ++ [x]) = editDistance costs source target := by
  rw [← editDistance_reverse (source ++ [x]), List.reverse_concat, List.reverse_concat, editDistance_cons_self,
    editDistance_reverse]

theorem editDistance_concat (different : x ≠ y) : editDistance costs (source ++ [x]) (target ++ [y]) =
    min (min (costs.delete + editDistance costs source (target ++ [y]))
      (costs.insert + editDistance costs (source ++ [x]) target)) (costs.replace + editDistance costs source target) := by
  rw [← editDistance_reverse (source ++ [x]) (target ++ [y]), ← editDistance_reverse source (target ++ [y]),
    ← editDistance_reverse (source ++ [x]) target, ← editDistance_reverse source target, List.reverse_concat,
    List.reverse_concat, editDistance, if_neg different]

end

end Goap.Foundation
