import Mathlib.Data.List.Perm.Basic
import Mathlib.Data.List.Forall2

namespace Goap.Foundation

variable {α β : Type} {R : α → β → Prop}

/-- If every element on the left has a partner on the right and no partner is
shared, some of the right list can be put in an order in which partners stand
opposite each other. -/
theorem exists_subperm_forall₂ {left : List α} {right : List β} (found : ∀ x ∈ left, ∃ y ∈ right, R x y)
    (apart : left.Pairwise fun earlier later => ∀ y ∈ right, R earlier y → ¬ R later y) :
    ∃ paired, paired.Subperm right ∧ List.Forall₂ R left paired := by
  induction left generalizing right with
  | nil => exact ⟨[], List.nil_subperm, .nil⟩
  | cons x rest ih =>
    obtain ⟨unshared, remaining⟩ := List.pairwise_cons.mp apart
    obtain ⟨y, member, related⟩ := found x (by simp)
    obtain ⟨before, after, split⟩ := List.append_of_mem member
    subst split
    have restFound : ∀ z ∈ rest, ∃ w ∈ before ++ after, R z w := by
      intro z present
      obtain ⟨w, chosen, relates⟩ := found z (by simp [present])
      have other : w ≠ y := by
        intro same
        exact unshared z present y member related (same ▸ relates)
      exact ⟨w, by simpa [other] using chosen, relates⟩
    have restApart : rest.Pairwise fun earlier later =>
        ∀ w ∈ before ++ after, R earlier w → ¬ R later w := by
      apply remaining.imp
      intro earlier later disjoint w present
      apply disjoint w
      rcases List.mem_append.mp present with early | late
      · exact List.mem_append_left _ early
      · exact List.mem_append_right _ (List.mem_cons_of_mem _ late)
    obtain ⟨paired, inside, aligned⟩ := ih restFound restApart
    refine ⟨y :: paired, ?_, .cons related aligned⟩
    exact ((List.subperm_cons y).mpr inside).trans List.perm_middle.symm.subperm

theorem exists_perm_forall₂ {left : List α} {right : List β} (found : ∀ x ∈ left, ∃ y ∈ right, R x y)
    (apart : left.Pairwise fun earlier later => ∀ y ∈ right, R earlier y → ¬ R later y)
    (size : left.length = right.length) :
    ∃ paired, paired.Perm right ∧ List.Forall₂ R left paired := by
  obtain ⟨paired, inside, aligned⟩ := exists_subperm_forall₂ found apart
  exact ⟨paired, inside.perm_of_length_le (Nat.le_of_eq (size.symm.trans aligned.length_eq)), aligned⟩

theorem length_le_of_apart {left : List α} {right : List β} (found : ∀ x ∈ left, ∃ y ∈ right, R x y)
    (apart : left.Pairwise fun earlier later => ∀ y ∈ right, R earlier y → ¬ R later y) :
    left.length ≤ right.length := by
  obtain ⟨paired, inside, aligned⟩ := exists_subperm_forall₂ found apart
  rw [aligned.length_eq]
  exact inside.length_le

theorem exists_right_of_forall₂ {left : List α} {right : List β} (aligned : List.Forall₂ R left right)
    {x : α} (member : x ∈ left) : ∃ y ∈ right, R x y := by
  induction aligned with
  | nil => simp at member
  | cons related _ ih =>
    rcases List.mem_cons.mp member with same | later
    · exact ⟨_, List.mem_cons_self, same ▸ related⟩
    · obtain ⟨y, present, found⟩ := ih later
      exact ⟨y, List.mem_cons_of_mem _ present, found⟩

theorem exists_left_of_forall₂ {left : List α} {right : List β} (aligned : List.Forall₂ R left right)
    {y : β} (member : y ∈ right) : ∃ x ∈ left, R x y :=
  exists_right_of_forall₂ aligned.flip member

theorem map_eq_of_forall₂ {γ : Type} {left : List α} {right : List β} {f : α → γ} {g : β → γ}
    (aligned : List.Forall₂ R left right) (same : ∀ x ∈ left, ∀ y ∈ right, R x y → f x = g y) :
    left.map f = right.map g := by
  induction aligned with
  | nil => rfl
  | cons related _ ih =>
    have later := ih fun x member y present => same x (List.mem_cons_of_mem _ member) y (List.mem_cons_of_mem _ present)
    rw [List.map_cons, List.map_cons, same _ List.mem_cons_self _ List.mem_cons_self related, later]

end Goap.Foundation
