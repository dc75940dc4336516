import Mathlib.Data.List.MinMax
import Mathlib.Order.Lattice

namespace Goap.Foundation

variable {α : Type} [LinearOrder α]

def least (threshold : α) (values : List α) : α := values.foldl min threshold

/-- Every value below the threshold at the start replaces the result, whether it is
less than the result or not. -/
def lastBelow (threshold : α) (values : List α) : α :=
  values.foldl (fun result value => if value < threshold then value else result) threshold

/-- The last value below the threshold, if there is one, is the least of all. -/
def LastIsLeast (threshold : α) (values : List α) : Prop :=
  ∀ last, (values.filter (· < threshold)).getLast? = some last → ∀ value ∈ values, last ≤ value

theorem least_append (threshold : α) (values others : List α) :
    least threshold (values ++ others) = least (least threshold values) others :=
  List.foldl_append

theorem le_least_iff {threshold bound : α} {values : List α} :
    bound ≤ least threshold values ↔ bound ≤ threshold ∧ ∀ value ∈ values, bound ≤ value := by
  induction values generalizing threshold with
  | nil => simp [least]
  | cons value rest ih =>
    have next : least threshold (value :: rest) = least (min threshold value) rest := rfl
    rw [next, ih, le_min_iff, List.forall_mem_cons, and_assoc]

theorem least_perm {values others : List α} (same : values.Perm others) (threshold : α) :
    least threshold values = least threshold others := by
  apply eq_of_forall_le_iff
  intro bound
  rw [le_least_iff, le_least_iff]
  simp only [same.mem_iff]

theorem lastBelow_eq (threshold : α) (values : List α) :
    lastBelow threshold values = (values.filter (· < threshold)).getLast?.getD threshold := by
  induction values using List.reverseRecOn with
  | nil => rfl
  | append_singleton values value ih =>
    rw [lastBelow, List.foldl_append, ← lastBelow, List.filter_append, List.foldl_cons, List.foldl_nil]
    by_cases below : value < threshold
    · simp [below]
    · simp [below, ih]

/-- The last value below the threshold is the running minimum exactly if it is the least. -/
theorem lastBelow_eq_least_iff (threshold : α) (values : List α) :
    lastBelow threshold values = least threshold values ↔ LastIsLeast threshold values := by
  rw [lastBelow_eq]
  cases found : (values.filter (· < threshold)).getLast? with
  | none =>
    have none : ∀ value ∈ values, threshold ≤ value := by
      intro value member
      rw [List.getLast?_eq_none_iff, List.filter_eq_nil_iff] at found
      simpa using found value member
    refine iff_of_true ?_ ?_
    · apply eq_of_forall_le_iff
      intro bound
      rw [le_least_iff, Option.getD_none]
      exact ⟨fun below => ⟨below, fun value member => below.trans (none value member)⟩, And.left⟩
    · intro last present
      rw [found] at present
      cases present
  | some last =>
    have member : last ∈ values.filter (· < threshold) := List.mem_of_getLast? found
    obtain ⟨inside, below⟩ := List.mem_filter.mp member
    have below : last < threshold := by simpa using below
    rw [Option.getD_some]
    constructor
    · intro same other present
      rw [found] at present
      cases present
      exact (le_least_iff.mp same.le).2
    · intro isLeast
      exact le_antisymm (le_least_iff.mpr ⟨below.le, isLeast last found⟩)
        ((le_least_iff.mp (le_refl (least threshold values))).2 last inside)

theorem lastIsLeast_of_pairwise {values : List α} (falling : values.Pairwise fun earlier later => later ≤ earlier)
    (threshold : α) : LastIsLeast threshold values := by
  intro last found value member
  by_cases below : value < threshold
  · have kept := falling.filter (· < threshold)
    have inside : value ∈ values.filter (· < threshold) := List.mem_filter.mpr ⟨member, decide_eq_true below⟩
    obtain ⟨init, split⟩ := List.getLast?_eq_some_iff.mp found
    rw [split] at kept inside
    rcases List.mem_append.mp inside with earlier | own
    · exact (List.pairwise_append.mp kept).2.2 value earlier last (List.mem_singleton_self last)
    · exact (List.mem_singleton.mp own).ge
  · have inside := (List.mem_filter.mp (List.mem_of_getLast? found)).2
    exact (of_decide_eq_true inside).le.trans (not_lt.mp below)

end Goap.Foundation
