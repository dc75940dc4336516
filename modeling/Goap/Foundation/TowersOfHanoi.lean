import Mathlib.Algebra.Order.Ring.Nat

namespace Goap.Foundation

inductive Peg where
  | A | B | C
deriving DecidableEq, Repr

/-- The peg that is neither, of two different ones. -/
def Peg.third : Peg → Peg → Peg
  | A, B | B, A => C
  | A, C | C, A => B
  | B, C | C, B => A
  | peg, _ => peg

theorem Peg.third_ne_left {source dest : Peg} (apart : source ≠ dest) : third source dest ≠ source := by
  cases source <;> cases dest <;> simp_all [third]

theorem Peg.third_ne_right {source dest : Peg} (apart : source ≠ dest) : third source dest ≠ dest := by
  cases source <;> cases dest <;> simp_all [third]

theorem Peg.eq_third {peg source dest : Peg} (apart : source ≠ dest) (first : peg ≠ source) (second : peg ≠ dest) :
    peg = third source dest := by
  cases peg <;> cases source <;> cases dest <;> simp_all [third]

abbrev Position := ℕ → Peg

namespace Position

/-- No smaller disc is on the peg of a disc or on the one that it is to be moved to. -/
structure Movable (position : Position) (disc : ℕ) (dest : Peg) : Prop where
  leaves : position disc ≠ dest
  free : ∀ smaller < disc, position smaller = Peg.third (position disc) dest

def move (position : Position) (disc : ℕ) (dest : Peg) : Position :=
  fun other => if other = disc then dest else position other

@[simp] theorem move_self (position : Position) (disc : ℕ) (dest : Peg) : position.move disc dest disc = dest :=
  if_pos rfl

theorem move_of_ne {position : Position} {disc other : ℕ} (apart : other ≠ disc) (dest : Peg) :
    position.move disc dest other = position other :=
  if_neg apart

/-- A number of moves of the first `n` discs. -/
inductive Moves (n : ℕ) : Position → ℕ → Position → Prop where
  | done {position : Position} : Moves n position 0 position
  | move {position position' : Position} {disc count : ℕ} {dest : Peg} (inside : disc < n)
      (movable : position.Movable disc dest) (rest : Moves n (position.move disc dest) count position') :
      Moves n position (count + 1) position'

def AllOn (n : ℕ) (peg : Peg) (position : Position) : Prop := ∀ disc < n, position disc = peg

/-- How many moves bring the first `n` discs to a peg: where the largest of them is not there
yet, the others have to make room for it, and come back. -/
def need (target : Peg) (position : Position) : ℕ → ℕ
  | 0 => 0
  | n + 1 =>
    if position n = target then need target position n
    else 2 ^ n + need (Peg.third (position n) target) position n

variable {position position' : Position} {n : ℕ} {target : Peg}

theorem need_of_moved (target : Peg) {disc : ℕ} (outside : n ≤ disc) (dest : Peg) :
    need target (position.move disc dest) n = need target position n := by
  induction n generalizing target with
  | zero => rfl
  | succ n ih =>
    have other : n ≠ disc := by omega
    rw [need, need, move_of_ne other, ih _ (by omega), ih _ (by omega)]

theorem need_eq_zero_iff : need target position n = 0 ↔ AllOn n target position := by
  induction n generalizing target with
  | zero => exact ⟨fun _ disc inside => absurd inside (Nat.not_lt_zero disc), fun _ => rfl⟩
  | succ n ih =>
    rw [need]
    by_cases there : position n = target
    · rw [if_pos there, ih]
      constructor
      · intro all disc inside
        rcases Nat.lt_succ_iff_lt_or_eq.mp inside with smaller | rfl
        · exact all disc smaller
        · exact there
      · exact fun all disc inside => all disc (Nat.lt_succ_of_lt inside)
    · have positive := Nat.two_pow_pos n
      rw [if_neg there]
      constructor
      · intro nothing
        omega
      · exact fun all => absurd (all n (Nat.lt_succ_self n)) there

theorem need_of_allOn (target : Peg) {peg : Peg} (all : AllOn n peg position) (apart : peg ≠ target) :
    need target position n + 1 = 2 ^ n := by
  induction n generalizing target with
  | zero => rfl
  | succ n ih =>
    have others : AllOn n peg position := fun disc inside => all disc (Nat.lt_succ_of_lt inside)
    have largest := all n (Nat.lt_succ_self n)
    have room := ih (Peg.third peg target) others (Peg.third_ne_left apart).symm
    rw [need, largest, if_neg apart, Nat.pow_succ]
    omega

/-- A move brings the discs nearer to a peg by one at most. -/
theorem need_le_move (target : Peg) {disc : ℕ} {dest : Peg} (inside : disc < n) (movable : position.Movable disc dest) :
    need target position n ≤ need target (position.move disc dest) n + 1 := by
  induction n generalizing target with
  | zero => exact absurd inside (Nat.not_lt_zero disc)
  | succ n ih =>
    rcases Nat.lt_succ_iff_lt_or_eq.mp inside with smaller | rfl
    · have same : position.move disc dest n = position n := move_of_ne (by omega) dest
      rw [need, need, same]
      split
      · exact ih target smaller
      · have nearer := ih (Peg.third (position n) target) smaller
        omega
    · -- the largest disc is moved, with all others on the third peg
      obtain ⟨leaves, free⟩ := movable
      have others (peg : Peg) : need peg (position.move disc dest) disc = need peg position disc :=
        need_of_moved peg (Nat.le_refl disc) dest
      have third (peg : Peg) (elsewhere : Peg.third (position disc) dest ≠ peg) := need_of_allOn peg free elsewhere
      have there : need (Peg.third (position disc) dest) position disc = 0 := need_eq_zero_iff.mpr free
      rw [need, need, move_self, others, others]
      by_cases start : position disc = target
      · have goes : dest ≠ target := fun same => leaves (start.trans same.symm)
        have back := third target (start ▸ Peg.third_ne_left leaves)
        rw [if_pos start, if_neg goes]
        omega
      · rw [if_neg start]
        by_cases goes : dest = target
        · subst goes
          have back := third dest (Peg.third_ne_right leaves)
          rw [if_pos rfl]
          omega
        · -- the target is the third peg
          have rest := Peg.eq_third leaves (Ne.symm start) (Ne.symm goes)
          have first := Peg.eq_third start (Ne.symm leaves) goes
          have second := Peg.eq_third goes leaves start
          rw [if_neg goes, ← first, ← second]
          have before := third dest (Peg.third_ne_right leaves)
          have after := third (position disc) (Peg.third_ne_left leaves)
          omega

theorem Moves.need_le (target : Peg) {count : ℕ} (moves : Moves n position count position') :
    need target position n ≤ need target position' n + count := by
  induction moves with
  | done => exact Nat.le_refl _
  | move inside movable _ ih =>
    have first := need_le_move target inside movable
    omega

/-- Some move brings the discs nearer to a peg that they are not all on. -/
theorem exists_nearer (missing : need target position n ≠ 0) : ∃ disc < n, ∃ dest, position.Movable disc dest ∧
    need target (position.move disc dest) n + 1 = need target position n := by
  induction n generalizing target with
  | zero => exact absurd rfl missing
  | succ n ih =>
    rw [need] at missing ⊢
    by_cases there : position n = target
    · rw [if_pos there] at missing ⊢
      obtain ⟨disc, inside, dest, movable, nearer⟩ := ih missing
      refine ⟨disc, Nat.lt_succ_of_lt inside, dest, movable, ?_⟩
      rw [need, move_of_ne (by omega), if_pos there, nearer]
    · rw [if_neg there]
      by_cases room : need (Peg.third (position n) target) position n = 0
      · have free := need_eq_zero_iff.mp room
        refine ⟨n, Nat.lt_succ_self n, target, ⟨there, free⟩, ?_⟩
        have back := need_of_allOn target free (Peg.third_ne_right there)
        rw [need, move_self, if_pos rfl, need_of_moved _ (Nat.le_refl n), room]
        omega
      · obtain ⟨disc, inside, dest, movable, nearer⟩ := ih room
        refine ⟨disc, Nat.lt_succ_of_lt inside, dest, movable, ?_⟩
        rw [need, move_of_ne (by omega), if_neg there]
        omega

theorem solvable (target : Peg) (position : Position) (n : ℕ) :
    ∃ position', Moves n position (need target position n) position' ∧ AllOn n target position' := by
  generalize same : need target position n = count
  induction count generalizing position with
  | zero => exact ⟨position, .done, need_eq_zero_iff.mp same⟩
  | succ count ih =>
    have missing : need target position n ≠ 0 := by rw [same]; exact Nat.succ_ne_zero count
    obtain ⟨disc, inside, dest, movable, nearer⟩ := exists_nearer missing
    obtain ⟨position', moves, all⟩ := ih (position.move disc dest) (by omega)
    exact ⟨position', .move inside movable moves, all⟩

end Position

end Goap.Foundation
