import Goap.Value.Interpolation

namespace Goap

open FloatOps BasicMath

variable {F : Type} [FloatOps F]

inductive Trap where
  | divisionByZero
  | outOfBounds
deriving DecidableEq

def inBounds {α : Type} : Option α → Except Trap α
  | none => .error .outOfBounds
  | some component => .ok component

namespace BasicMath

/-- The distance of two positions that `interp2array` reads, from `n` places to `m`. -/
def arrayStep (n m : Nat) : Except Trap F :=
  let divisor := lit ((m : Int) - 1 : Int)
  if eq divisor (lit 0) then .error .divisionByZero else .ok (lit ((n : Int) - 1 : Int) / divisor)

/-- `interp2array`, read by read. -/
def interp2arrayChecked (a : List F) (m : Nat) : Except Trap (List F) := do
  let step ← arrayStep a.length m
  (List.range m).mapM fun (j : Nat) => inBounds (interp2 (lit (j : ℚ) * step) a)

end BasicMath

/-- `interpolateFrom`; the value itself, given as `none`, is left as it is. -/
def CachedValue.interpolateFromChecked (this : CachedValue F) (other : Option (StateValue F)) :
    Except Trap (CachedValue F) :=
  match other with
  | none => .ok this.touch
  | some other =>
    if 0 < this.value.size then do
      let data ← interp2arrayChecked other.data this.value.size
      return new ⟨data⟩
    else .ok this.touch

theorem toOption_mapM_inBounds {α β : Type} (read : α → Option β) (places : List α) :
    (places.mapM fun place => inBounds (read place)).toOption = places.mapM read := by
  induction places with
  | nil => rfl
  | cons place rest ih =>
    rw [List.mapM_cons, List.mapM_cons, ← ih]
    cases read place with
    | none => rfl
    | some component =>
      show ((rest.mapM fun place => inBounds (read place)) >>= _).toOption = _
      cases rest.mapM fun place => inBounds (read place) <;> rfl

section

attribute [local instance] wholeBits

namespace BasicMath

variable {a : List ℝ} {m : Nat}

theorem arrayStep_one (n : Nat) : (arrayStep n 1 : Except Trap ℝ) = .error .divisionByZero := by
  have zero : eq (lit (((1 : ℕ) : ℤ) - 1 : ℤ) : ℝ) (lit 0) = true := by
    show decide ((((((1 : ℕ) : ℤ) - 1 : ℤ) : ℚ) : ℝ) = ((0 : ℚ) : ℝ)) = true
    norm_num
  rw [arrayStep, if_pos zero]

theorem arrayStep_eq (n : Nat) (other : m ≠ 1) :
    arrayStep n m = .ok ((lit (((n : ℤ) - 1 : ℤ) : ℚ) : ℝ) / lit (((m : ℤ) - 1 : ℤ) : ℚ)) := by
  have divisor : ¬ eq (lit (((m : ℤ) - 1 : ℤ) : ℚ) : ℝ) (lit 0) = true := by
    have nonzero : (m : ℤ) - 1 ≠ 0 := by omega
    show ¬ decide (((((m : ℤ) - 1 : ℤ) : ℚ) : ℝ) = ((0 : ℚ) : ℝ)) = true
    rw [decide_eq_true_iff]
    exact_mod_cast nonzero
  rw [arrayStep, if_neg divisor]

theorem interp2arrayChecked_toOption (a : List ℝ) (other : m ≠ 1) :
    (interp2arrayChecked a m).toOption = interp2array a m := by
  rw [interp2arrayChecked, arrayStep_eq a.length other, interp2array_eq_mapM]
  exact toOption_mapM_inBounds _ _

theorem interp2array_nil (positive : 0 < m) : interp2array ([] : List ℝ) m = none := by
  obtain ⟨last, rfl⟩ : ∃ last, m = last + 1 := ⟨m - 1, by omega⟩
  have first : ∀ x : ℝ, interp2 x [] = none := by
    intro x
    by_cases ends : AtEnds [] x
    · rw [interp2_ends ends, interp1]
      simp [subscript]
    · obtain ⟨j, _, _, room, _⟩ := interp2_inside ends
      simp at room
  rw [interp2array_eq_mapM, List.range_succ_eq_map, List.mapM_cons, first]
  rfl

end BasicMath

namespace CachedValue

variable {this : CachedValue ℝ}

theorem interpolateFromChecked_toOption (other : StateValue ℝ) (several : this.value.size ≠ 1) :
    (this.interpolateFromChecked (some other)).toOption = this.interpolateFrom other := by
  rw [interpolateFromChecked, interpolateFrom]
  split
  · rw [← interp2arrayChecked_toOption other.data several]
    cases interp2arrayChecked other.data this.value.size <;> rfl
  · rfl

/-- Resampling divides by no 0 and reads nothing outside of the source exactly if it is
that of a value itself, the target is empty, or the target has several components and the
source at least one. -/
theorem interpolateFrom_ok_iff (this : CachedValue ℝ) (other : Option (StateValue ℝ)) :
    (∃ changed, this.interpolateFromChecked other = .ok changed) ↔
      ∀ source, other = some source → this.value.size = 0 ∨ 2 ≤ this.value.size ∧ 0 < source.size := by
  cases other with
  | none =>
    constructor
    · intro _ source same
      cases same
    · exact fun _ => ⟨_, rfl⟩
  | some source =>
    simp only [Option.some.injEq, forall_eq']
    have answered : (∃ changed, this.interpolateFromChecked (some source) = .ok changed) ↔
        (this.interpolateFromChecked (some source)).toOption.isSome = true := by
      cases this.interpolateFromChecked (some source) <;> simp [Except.toOption]
    by_cases single : this.value.size = 1
    · have trapped : this.interpolateFromChecked (some source) = .error .divisionByZero := by
        rw [interpolateFromChecked]
        simp only [single, Nat.one_pos, if_true, interp2arrayChecked, arrayStep_one]
        rfl
      simp [trapped, single]
    · rw [answered, interpolateFromChecked_toOption source single, interpolateFrom]
      rcases Nat.eq_zero_or_pos this.value.size with empty | positive
      · simp [empty]
      · rw [if_pos positive]
        rcases Nat.eq_zero_or_pos source.size with nothing | entries
        · have data : source.data = [] := List.eq_nil_of_length_eq_zero nothing
          rw [data, interp2array_nil positive]
          simp [nothing, positive.ne']
        · rw [interp2array_eq entries]
          have several : 2 ≤ this.value.size := by omega
          simp [several, entries]

/-- The only component of a value cannot be resampled from another. -/
theorem interpolateFrom_ok_fails : ¬ ∀ (this : CachedValue ℝ) (other : Option (StateValue ℝ)),
    ∃ changed, this.interpolateFromChecked other = .ok changed := by
  intro all
  obtain ⟨changed, done⟩ := all (new (.scalar 0)) (some (.scalar 0))
  have trapped : (new (.scalar (0 : ℝ))).interpolateFromChecked (some (.scalar 0)) = .error .divisionByZero := by
    show (interp2arrayChecked [(0 : ℝ)] 1 >>= _) = _
    rw [interp2arrayChecked, arrayStep_one]
    rfl
  cases trapped.symm.trans done

end CachedValue

end

end Goap
