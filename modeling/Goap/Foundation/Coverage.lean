import Mathlib.Data.List.Basic

/-! Searches over a step relation that keep a list of visited elements and an
open frontier: what an exhausted frontier covers, and how far a frontier that is
explored level by level has come. -/

namespace Goap.Foundation

variable {α : Type}

/-- Reachable in exactly so many steps. -/
inductive StepsIn (step : α → α → Prop) : Nat → α → α → Prop where
  | refl : StepsIn step 0 start start
  | tail (before : StepsIn step steps start middle) (last : step middle target) :
      StepsIn step (steps + 1) start target

/-- A measure of depth that need not tell great depths apart. -/
structure DepthMeasure (level : Nat → Nat) : Prop where
  mono : ∀ {depth depth'}, depth ≤ depth' → level depth ≤ level depth'
  succ_mono : ∀ {depth depth'}, level depth ≤ level depth' → level (depth + 1) ≤ level (depth' + 1)

theorem DepthMeasure.const (value : Nat) : DepthMeasure fun _ => value :=
  ⟨fun _ => Nat.le_refl _, fun _ => Nat.le_refl _⟩

theorem DepthMeasure.id : DepthMeasure fun depth => depth :=
  ⟨fun bound => bound, fun bound => Nat.succ_le_succ bound⟩

theorem DepthMeasure.capped (cap : Nat) : DepthMeasure fun depth => min depth cap := by
  constructor
  · intro depth depth' bound
    omega
  · intro depth depth' bound
    omega

variable {step same : α → α → Prop} {level : Nat → Nat} {visited : List (α × Nat)} {opened : Nat → Prop}

/-- If every step from a visited element leads to a visited element or to the
frontier, not deeper than one level below it, then every element that is some
steps away is visited at no greater level, up to `same`, or the frontier stands at
no greater level. -/
theorem visited_or_open (measure : DepthMeasure level)
    (trans : ∀ x y z, same x y → same y z → same x z)
    (respects : ∀ x y x', same x y → step x x' → ∃ y', step y y' ∧ same x' y')
    (closed : ∀ v ∈ visited, ∀ target, step v.1 target →
      (∃ w ∈ visited, same target w.1 ∧ level w.2 ≤ level (v.2 + 1)) ∨
        ∃ depth, opened depth ∧ level depth ≤ level (v.2 + 1))
    {start target : α} (began : ∃ v ∈ visited, same start v.1 ∧ level v.2 ≤ level 0)
    {steps : Nat} (trace : StepsIn step steps start target) :
    (∃ w ∈ visited, same target w.1 ∧ level w.2 ≤ level steps) ∨
      ∃ depth, opened depth ∧ level depth ≤ level steps := by
  induction trace with
  | refl => exact .inl began
  | @tail steps _ middle target before last ih =>
    rcases ih began with ⟨v, member, close, bound⟩ | ⟨depth, isOpen, bound⟩
    · obtain ⟨next, moved, close'⟩ := respects _ _ _ close last
      have deeper := measure.succ_mono bound
      rcases closed v member next moved with ⟨w, member', close'', bound'⟩ | ⟨depth, isOpen, bound'⟩
      · exact .inl ⟨w, member', trans _ _ _ close' close'', Nat.le_trans bound' deeper⟩
      · exact .inr ⟨depth, isOpen, Nat.le_trans bound' deeper⟩
    · exact .inr ⟨depth, isOpen, Nat.le_trans bound (measure.mono (Nat.le_succ steps))⟩

end Goap.Foundation
