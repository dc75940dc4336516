import Goap.Foundation.Truncation
import Goap.Value.StateValue
import Mathlib.Data.List.TakeWhile
import Mathlib.Tactic.Linarith

/-! Values as text: `assign` of a string and `toString`, whose text form prints one
character for each component. Characters are signed bytes. -/

namespace Goap

open FloatOps Foundation

variable {F : Type} [FloatOps F]

/-- `std::string` with signed `char`. -/
abbrev Text := List Int8

namespace StateValue

/-- `assign(const std::string &)`. -/
def assignString (str : Text) : StateValue F := ⟨str.map fun char => lit char.toInt⟩

/-- `assign(const char *)`, which ends at the first zero. -/
def assignChars (str : Text) : StateValue F := ⟨(str.takeWhile (· ≠ 0)).map fun char => lit char.toInt⟩

/-- The fractional part that `std::modf` answers; it has the sign of the value. -/
def fractional (value : F) : F := value - lit (toInt64 value).toInt

/-- The test of `toOstream` for a component that is no character. -/
def isNoChar (value : F) : Bool :=
  lt value (lit (-128)) || le (lit 128) value || (le (lit 0) value && lt value (lit 32)) ||
    lt (lit 0) (fractional value)

/-- `static_cast<char>` of a value in its range. -/
def toChar (value : F) : Int8 := (toInt64 value).toInt8

/-- The loop of `toOstream`; `none` where it breaks off for the debug form. -/
def textLoop : List F → Text → Option Text
  | [], str => some str
  | value :: rest, str => if isNoChar value then none else textLoop rest (str ++ [toChar value])

/-- What `toString` answers unless it is the debug form. -/
def textForm (value : StateValue F) : Option Text := textLoop value.data []

/-- `toDebugString`: the components in brackets and a zero, as the stream prints them. -/
def toDebugString (print : F → Text) (value : StateValue F) : Text :=
  [91] ++ [44, 32].intercalate (value.data.map print) ++ [93, 0]

/-- `toString` on a stream that shows no colours. -/
def toString (print : F → Text) (value : StateValue F) : Text := value.textForm.getD (value.toDebugString print)

/-- The character is not one of the control characters 0 to 31. -/
def IsPrintable (char : Int8) : Prop := char.toInt < 0 ∨ 32 ≤ char.toInt

instance : DecidablePred IsPrintable := fun char => inferInstanceAs (Decidable (char.toInt < 0 ∨ 32 ≤ char.toInt))

/-- No negative component has a fraction. -/
def WholeBelowZero (value : StateValue ℚ) : Prop := ∀ x ∈ value.data, x < 0 → ∃ n : ℤ, x = n

/-- For characters up to 127 the components of a string are its codes. -/
theorem ofString_eq_assignString (text : String) (ascii : ∀ char ∈ text.toList, char.toNat < 128) :
    (ofString text : StateValue F) = assignString (text.toList.map fun char => Int8.ofNat char.toNat) := by
  have same : text.toList.map (fun char => (lit char.toNat : F)) =
      (text.toList.map fun char => Int8.ofNat char.toNat).map fun char => lit char.toInt := by
    rw [List.map_map]
    apply List.map_congr_left
    intro char member
    have code : (Int8.ofNat char.toNat).toInt = char.toNat := Int8.toInt_ofNat_of_lt (ascii char member)
    simp [code]
  rw [ofString, assignString, same]

theorem textLoop_eq (data : List F) (str : Text) :
    textLoop data str = if data.any isNoChar then none else some (str ++ data.map toChar) := by
  induction data generalizing str with
  | nil => simp [textLoop]
  | cons value rest ih =>
    cases test : isNoChar value with
    | false => simp only [textLoop, test, ih, List.any_cons, Bool.false_or, Bool.false_eq_true, if_false, List.map_cons,
        List.append_assoc, List.singleton_append]
    | true => simp [textLoop, test]

theorem textForm_eq_some_iff {value : StateValue F} {str : Text} :
    value.textForm = some str ↔ (∀ x ∈ value.data, isNoChar x = false) ∧ value.data.map toChar = str := by
  rw [textForm, textLoop_eq]
  simp

theorem textForm_eq_none_iff {value : StateValue F} : value.textForm = none ↔ ∃ x ∈ value.data, isNoChar x = true := by
  rw [textForm, textLoop_eq]
  simp

theorem toInt64_eq {x : ℚ} (above : -128 ≤ x) (below : x < 128) : (toInt64 x).toInt = truncate x := by
  have lower : truncate (-128 : ℚ) ≤ truncate x := truncate_mono above
  have upper : truncate x ≤ truncate (128 : ℚ) := truncate_mono below.le
  have least : truncate (-128 : ℚ) = -128 := by decide +kernel
  have greatest : truncate (128 : ℚ) = 128 := by decide +kernel
  show (Int64.ofIntClamp _).toInt = _
  rw [truncate_rat]
  refine Int64.toInt_ofIntClamp ?_ ?_
  · rw [Int64.toInt_minValue]
    omega
  · rw [Int64.toInt_maxValue]
    omega

/-- A component passes for a character if it is in range, no control character and, from
0 on, whole. -/
theorem isNoChar_eq_false_iff (x : ℚ) : isNoChar x = false ↔
    (-128 ≤ x ∧ x < 128) ∧ (x < 0 ∨ 32 ≤ x) ∧ (x < 0 ∨ ∃ n : ℤ, x = n) := by
  have test : isNoChar x = false ↔ (-128 ≤ x ∧ x < 128) ∧ (x < 0 ∨ 32 ≤ x) ∧ fractional x ≤ 0 := by
    simp only [isNoChar, FloatOps.lt, FloatOps.le, FloatOps.lit, id, Bool.or_eq_false_iff, Bool.and_eq_false_iff,
      decide_eq_false_iff_not, not_lt, not_le, and_assoc]
  rw [test, and_congr_right_iff]
  intro range
  have part : fractional x = x - truncate x := by rw [fractional, toInt64_eq range.1 range.2]; rfl
  rw [part, and_congr_right_iff]
  intro _
  rcases lt_or_ge x 0 with negative | nonneg
  · have up : x ≤ truncate x := by
      rw [truncate_of_nonpos negative.le]
      exact Int.le_ceil x
    simp only [negative, true_or, iff_true]
    linarith
  · rw [truncate_of_nonneg nonneg]
    constructor
    · intro small
      exact .inr ⟨⌊x⌋, le_antisymm (by linarith) (Int.floor_le x)⟩
    · rintro (negative | ⟨n, rfl⟩)
      · exact absurd negative (not_lt.mpr nonneg)
      · simp

theorem toInt_toChar {n : ℤ} (above : -128 ≤ (n : ℚ)) (below : (n : ℚ) < 128) : (toChar (n : ℚ)).toInt = n := by
  have whole : truncate (n : ℚ) = n := by
    rcases le_total 0 (n : ℚ) with nonneg | nonpos
    · rw [truncate_of_nonneg nonneg, Int.floor_intCast]
    · rw [truncate_of_nonpos nonpos, Int.ceil_intCast]
  have lower : -128 ≤ n := by exact_mod_cast above
  have upper : n < 128 := by exact_mod_cast below
  rw [toChar, Int64.toInt_toInt8, toInt64_eq above below, whole]
  exact Int.bmod_eq_of_le (by omega) (by omega)

theorem toChar_toInt (char : Int8) : toChar (lit char.toInt : ℚ) = char := by
  have lower := char.minValue_le_toInt
  have upper := char.toInt_le
  rw [Int8.toInt_minValue] at lower
  rw [Int8.toInt_maxValue] at upper
  apply Int8.toInt.inj
  refine toInt_toChar ?_ ?_
  · exact_mod_cast lower
  · exact_mod_cast Int.lt_add_one_of_le upper

/-- A whole component that passes for a character is the code of that character. -/
theorem lit_toChar {x : ℚ} (passes : isNoChar x = false) (whole : x < 0 → ∃ n : ℤ, x = n) :
    lit (toChar x).toInt = x := by
  obtain ⟨range, _, fraction⟩ := (isNoChar_eq_false_iff x).mp passes
  obtain ⟨n, rfl⟩ : ∃ n : ℤ, x = n := fraction.elim whole id
  rw [toInt_toChar range.1 range.2]
  rfl

theorem isNoChar_toInt (char : Int8) : isNoChar (lit char.toInt : ℚ) = false ↔ IsPrintable char := by
  have lower := char.minValue_le_toInt
  have upper := char.toInt_le
  rw [Int8.toInt_minValue] at lower
  rw [Int8.toInt_maxValue] at upper
  have range : -128 ≤ (char.toInt : ℚ) ∧ (char.toInt : ℚ) < 128 := by
    constructor
    · exact_mod_cast lower
    · exact_mod_cast Int.lt_add_one_of_le upper
  show isNoChar (char.toInt : ℚ) = false ↔ _
  rw [isNoChar_eq_false_iff, IsPrintable]
  constructor
  · rintro ⟨_, code, _⟩
    exact_mod_cast code
  · intro code
    exact ⟨range, by exact_mod_cast code, .inr ⟨char.toInt, rfl⟩⟩

theorem textForm_assignString (str : Text) :
    (assignString str : StateValue ℚ).textForm = some str ↔ ∀ char ∈ str, IsPrintable char := by
  have codes : (str.map fun char => (lit char.toInt : ℚ)).map toChar = str := by
    rw [List.map_map]
    exact (List.map_congr_left fun char _ => toChar_toInt char).trans (List.map_id str)
  rw [textForm_eq_some_iff]
  simp only [assignString, codes, and_true, List.forall_mem_map, isNoChar_toInt]

theorem assignString_textForm {value : StateValue ℚ} {str : Text} (form : value.textForm = some str)
    (whole : value.WholeBelowZero) : assignString str = value := by
  obtain ⟨pass, rfl⟩ := textForm_eq_some_iff.mp form
  have same : (value.data.map toChar).map (fun char => (lit char.toInt : ℚ)) = value.data := by
    rw [List.map_map]
    exact (List.map_congr_left fun x member => lit_toChar (pass x member) (whole x member)).trans (List.map_id _)
  rw [assignString, same]

theorem toString_of_textForm {print : ℚ → Text} {value : StateValue ℚ} {str : Text} (form : value.textForm = some str) :
    value.toString print = str := by
  rw [toString, form, Option.getD_some]

/-- Without control characters a string is given back by `toString`, and the value of a
string with one is printed in the debug form. A value without negative fractions that is
printed as text is what the text is assigned to, so no two of these have the same text. In any
arithmetic, infinities included, a value with a component out of the range of `char` is printed
in the debug form. -/
theorem text_round_trip (print : ℚ → Text) :
    (∀ str : Text, (∀ char ∈ str, IsPrintable char) → (assignString str).toString print = str ∧
        (assignChars str).toString print = str) ∧
      (∀ str : Text, (∃ char ∈ str, ¬ IsPrintable char) →
        (assignString str).toString print = (assignString str).toDebugString print) ∧
      (∀ value : StateValue ℚ, value.WholeBelowZero → value.textForm ≠ none →
        assignString (value.toString print) = value) ∧
      (∀ value other : StateValue ℚ, value.WholeBelowZero → other.WholeBelowZero → value.textForm ≠ none →
        other.textForm ≠ none → value.toString print = other.toString print → value = other) ∧
      ∀ (F : Type) [FloatOps F] (value : StateValue F), (∃ x ∈ value.data, lt x (lit (-128)) = true ∨ le (lit 128) x = true) →
        value.textForm = none := by
  have recovered : ∀ value : StateValue ℚ, value.WholeBelowZero → value.textForm ≠ none →
      assignString (value.toString print) = value := by
    intro value whole form
    obtain ⟨str, form⟩ := Option.ne_none_iff_exists'.mp form
    rw [toString_of_textForm form]
    exact assignString_textForm form whole
  refine ⟨?_, ?_, recovered, ?_, ?_⟩
  · intro str printable
    have form := (textForm_assignString str).mpr printable
    have whole : assignChars str = (assignString str : StateValue ℚ) := by
      have noZero : str.takeWhile (· ≠ 0) = str := by
        apply List.takeWhile_eq_self_iff.mpr
        intro char member
        rw [decide_eq_true_eq]
        rintro rfl
        exact absurd (printable 0 member) (by decide)
      rw [assignChars, noZero, assignString]
    rw [whole]
    exact ⟨toString_of_textForm form, toString_of_textForm form⟩
  · rintro str ⟨char, member, control⟩
    have form : (assignString str : StateValue ℚ).textForm = none := by
      refine textForm_eq_none_iff.mpr ⟨lit char.toInt, List.mem_map_of_mem member, ?_⟩
      rwa [← Bool.not_eq_false, isNoChar_toInt]
    rw [toString, form, Option.getD_none]
  · intro value other whole whole' form form' same
    rw [← recovered value whole form, ← recovered other whole' form', same]
  · intro F _ value outside
    obtain ⟨x, member, far⟩ := outside
    refine textForm_eq_none_iff.mpr ⟨x, member, ?_⟩
    rcases far with low | high
    · simp [isNoChar, low]
    · simp [isNoChar, high]

/-- A line feed is printed as a number in brackets. -/
theorem text_round_trip_fails : ¬ ∀ (print : ℚ → Text),
    (∀ str : Text, (assignString str).toString print = str) ∧
      ∀ value : StateValue ℚ, value.textForm ≠ none → assignString (value.toString print) = value := by
  intro all
  have given := (all fun _ => [49, 48]).1 [10]
  exact absurd given (by decide +kernel)

end StateValue

end Goap
