import Mathlib.Data.List.Lex

namespace Goap.Foundation

def utf8 (text : List Char) : List UInt8 := text.flatMap String.utf8EncodeChar

theorem utf8_append (text other : List Char) : utf8 (text ++ other) = utf8 text ++ utf8 other := List.flatMap_append

theorem utf8_injective : Function.Injective utf8 := by
  intro text other same
  have encoded : text.utf8Encode = other.utf8Encode := congrArg List.toByteArray same
  have decoded := congrArg ByteArray.utf8Decode? encoded
  simp only [List.utf8Decode?_utf8Encode, Option.some.injEq] at decoded
  simpa using congrArg Array.toList decoded

/-- The UTF-16 code units of a character. -/
def codeUnits (char : Char) : List ℕ :=
  if char.toNat < 0x10000 then [char.toNat]
  else [0xD800 + (char.toNat - 0x10000) / 0x400, 0xDC00 + (char.toNat - 0x10000) % 0x400]

def utf16 (text : List Char) : List ℕ := text.flatMap codeUnits

theorem char_valid (char : Char) : char.toNat < 0xD800 ∨ 0xDFFF < char.toNat ∧ char.toNat < 0x110000 := char.valid

theorem codeUnits_append {char char' : Char} {rest rest' : List ℕ}
    (same : codeUnits char ++ rest = codeUnits char' ++ rest') : char = char' ∧ rest = rest' := by
  have valid := char_valid char
  have valid' := char_valid char'
  unfold codeUnits at same
  split at same <;> split at same <;> simp only [List.cons_append, List.nil_append, List.cons.injEq] at same
  · exact ⟨Char.toNat_inj.mp same.1, same.2⟩
  · omega
  · omega
  · exact ⟨Char.toNat_inj.mp (by omega), same.2.2⟩

theorem codeUnits_ne_nil (char : Char) : codeUnits char ≠ [] := by
  unfold codeUnits
  split <;> exact List.cons_ne_nil _ _

theorem utf16_injective : Function.Injective utf16 := by
  intro text other same
  induction text generalizing other with
  | nil =>
    cases other with
    | nil => rfl
    | cons char rest => exact absurd (List.append_eq_nil_iff.mp same.symm).1 (codeUnits_ne_nil char)
  | cons char text ih =>
    cases other with
    | nil => exact absurd (List.append_eq_nil_iff.mp same).1 (codeUnits_ne_nil char)
    | cons char' other =>
      obtain ⟨rfl, rest⟩ := codeUnits_append same
      rw [ih rest]

end Goap.Foundation
