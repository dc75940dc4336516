import Mathlib.Algebra.Order.Field.Rat
import Mathlib.Algebra.Order.Field.Basic
import Mathlib.Data.Finset.Card
import Mathlib.Data.Nat.Cast.Order.Field
import Mathlib.Tactic.Positivity
import Mathlib.Tactic.Linarith

/-! The share of keys at which two finite partial maps differ, among the keys that one
of them has. It is a metric although every pair of maps has its own denominator. -/

namespace Goap.Foundation

variable {K V : Type*} {keys : Finset K} {f g h : K → Option V}

def occupied (keys : Finset K) (f g : K → Option V) : Finset K := keys.filter fun k => f k ≠ none ∨ g k ≠ none

def common (keys : Finset K) (f g : K → Option V) : Finset K := keys.filter fun k => f k ≠ none ∧ g k ≠ none

def between (keys : Finset K) (f g h : K → Option V) : Finset K :=
  keys.filter fun k => f k = none ∧ g k ≠ none ∧ h k = none

theorem occupied_comm : occupied keys f g = occupied keys g f := by
  simp only [occupied, or_comm]

theorem between_comm : between keys f g h = between keys h g f := by
  ext k
  simp only [between, Finset.mem_filter]
  tauto

section

variable [DecidableEq K]

theorem card_occupied_add : (occupied keys f g).card + (common keys f g).card =
    (keys.filter fun k => f k ≠ none).card + (keys.filter fun k => g k ≠ none).card := by
  rw [occupied, common, Finset.filter_or, Finset.filter_and, Finset.card_union_add_card_inter]

theorem card_occupied_le_left : (occupied keys f g).card ≤ (occupied keys f h).card + (between keys f g h).card := by
  refine (Finset.card_le_card ?_).trans (Finset.card_union_le _ _)
  intro k member
  simp only [occupied, between, Finset.mem_union, Finset.mem_filter] at member ⊢
  tauto

theorem card_occupied_le_right : (occupied keys g h).card ≤ (occupied keys f h).card + (between keys f g h).card := by
  rw [occupied_comm, between_comm, occupied_comm (f := f)]
  exact card_occupied_le_left

end

variable [DecidableEq V]

def differing (keys : Finset K) (f g : K → Option V) : Finset K := keys.filter fun k => f k ≠ g k

def hammingRatio (keys : Finset K) (f g : K → Option V) : ℚ := (differing keys f g).card / (occupied keys f g).card

theorem differing_subset : differing keys f g ⊆ occupied keys f g := by
  intro k member
  simp only [differing, occupied, Finset.mem_filter] at member ⊢
  refine ⟨member.1, ?_⟩
  by_contra neither
  simp only [not_or, not_not] at neither
  exact member.2 (neither.1.trans neither.2.symm)

theorem card_differing_le : (differing keys f g).card ≤ (occupied keys f g).card :=
  Finset.card_le_card differing_subset

theorem hammingRatio_nonneg : 0 ≤ hammingRatio keys f g := div_nonneg (Nat.cast_nonneg _) (Nat.cast_nonneg _)

theorem hammingRatio_le_one : hammingRatio keys f g ≤ 1 :=
  div_le_one_of_le₀ (by exact_mod_cast card_differing_le) (Nat.cast_nonneg _)

theorem differing_comm : differing keys f g = differing keys g f := by
  simp only [differing, ne_comm]

theorem between_subset : between keys f g h ⊆ differing keys f g := by
  intro k member
  simp only [between, differing, Finset.mem_filter] at member ⊢
  exact ⟨member.1, fun same => member.2.2.1 (same ▸ member.2.1)⟩

theorem hammingRatio_comm : hammingRatio keys f g = hammingRatio keys g f := by
  simp only [hammingRatio, differing_comm (f := f), occupied_comm (f := f)]

theorem hammingRatio_eq_zero_iff : hammingRatio keys f g = 0 ↔ ∀ k ∈ keys, f k = g k := by
  have none : (differing keys f g).card = 0 ↔ ∀ k ∈ keys, f k = g k := by
    simp [differing, Finset.filter_eq_empty_iff]
  have bound : (differing keys f g).card ≤ (occupied keys f g).card := card_differing_le
  simp only [hammingRatio, div_eq_zero_iff, Nat.cast_eq_zero, ← none]
  omega

variable [DecidableEq K]

theorem card_differing_add : (differing keys f g).card + (common keys f g).card =
    (occupied keys f g).card + ((common keys f g).filter fun k => f k ≠ g k).card := by
  have union : differing keys f g ∪ common keys f g = occupied keys f g := by
    ext k
    simp only [differing, common, occupied, Finset.mem_union, Finset.mem_filter]
    rw [← and_or_left, and_congr_right_iff]
    intro _
    cases f k <;> cases g k <;> simp
  have inter : differing keys f g ∩ common keys f g = (common keys f g).filter fun k => f k ≠ g k := by
    ext k
    simp only [differing, common, Finset.mem_inter, Finset.mem_filter]
    tauto
  rw [← union, ← inter, Finset.card_union_add_card_inter]

/-- A key of the middle map only counts in both steps and not in the direct one. -/
theorem card_differing_add_between : (differing keys f h).card + 2 * (between keys f g h).card ≤
    (differing keys f g).card + (differing keys g h).card := by
  have left : between keys f g h ⊆ differing keys f g := between_subset
  have right : between keys f g h ⊆ differing keys g h := by
    rw [between_comm, differing_comm]
    exact between_subset
  have direct : differing keys f h ⊆
      (differing keys f g \ between keys f g h) ∪ (differing keys g h \ between keys f g h) := by
    intro k member
    simp only [between, differing, Finset.mem_union, Finset.mem_sdiff, Finset.mem_filter] at member ⊢
    by_cases step : f k = g k
    · right
      exact ⟨⟨member.1, step ▸ member.2⟩, fun only => only.2.2.1 (step ▸ only.2.1)⟩
    · left
      exact ⟨⟨member.1, step⟩, fun only => member.2 (only.2.1.trans only.2.2.2.symm)⟩
  have bound := (Finset.card_le_card direct).trans (Finset.card_union_le _ _)
  rw [Finset.card_sdiff_of_subset left, Finset.card_sdiff_of_subset right] at bound
  have first := Finset.card_le_card left
  have second := Finset.card_le_card right
  omega

theorem share_le {part whole larger : ℕ} (inside : part ≤ whole) (grows : whole ≤ larger) :
    (part : ℚ) / larger ≤ part / whole := by
  rcases Nat.eq_zero_or_pos whole with zero | positive
  · have none : part = 0 := by omega
    simp [none]
  · exact div_le_div_of_nonneg_left (Nat.cast_nonneg _) (by exact_mod_cast positive) (by exact_mod_cast grows)

theorem share_le_add {part whole : ℕ} (extra : ℕ) (inside : part ≤ whole) :
    (part : ℚ) / whole ≤ (part + 2 * extra : ℕ) / (whole + extra : ℕ) := by
  rcases Nat.eq_zero_or_pos whole with zero | positive
  · have none : part = 0 := by omega
    rw [none, Nat.cast_zero, zero_div]
    positivity
  · have grows : part * (whole + extra) ≤ (part + 2 * extra) * whole := by
      have larger := Nat.mul_le_mul_right extra inside
      nlinarith
    rw [div_le_div_iff₀ (by exact_mod_cast positive) (by exact_mod_cast Nat.add_pos_left positive extra)]
    exact_mod_cast grows

theorem hammingRatio_triangle : hammingRatio keys f h ≤ hammingRatio keys f g + hammingRatio keys g h := by
  let whole := (occupied keys f h).card + (between keys f g h).card
  have detour : ((differing keys f h).card + 2 * (between keys f g h).card : ℕ) ≤
      (differing keys f g).card + (differing keys g h).card := card_differing_add_between
  calc hammingRatio keys f h
      ≤ ((differing keys f h).card + 2 * (between keys f g h).card : ℕ) / (whole : ℕ) :=
        share_le_add _ card_differing_le
    _ ≤ ((differing keys f g).card + (differing keys g h).card : ℕ) / (whole : ℕ) :=
        div_le_div_of_nonneg_right (by exact_mod_cast detour) (Nat.cast_nonneg _)
    _ = (differing keys f g).card / (whole : ℕ) + (differing keys g h).card / (whole : ℕ) := by
        rw [Nat.cast_add, add_div]
    _ ≤ hammingRatio keys f g + hammingRatio keys g h :=
        add_le_add (share_le card_differing_le card_occupied_le_left)
          (share_le card_differing_le card_occupied_le_right)

end Goap.Foundation
