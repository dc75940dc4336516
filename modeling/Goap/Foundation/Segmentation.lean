import Mathlib.Data.List.Basic

namespace Goap.Foundation

variable {α : Type*}

/-- The words of the first list go on with the given letters and then with the words of
the second: word by word, one of the lists is ahead. -/
inductive Continues : List α → List (List α) → List (List α) → Prop
  | done : Continues [] [] []
  | within (word more : List α) {rest rest' : List (List α)} (later : Continues more rest rest') :
      Continues (word ++ more) (word :: rest) rest'
  | beyond (more : List α) {ahead : List α} {rest rest' : List (List α)} (nonempty : ahead ≠ [])
      (later : Continues ahead rest' rest) : Continues more ((more ++ ahead) :: rest) rest'
  | even {rest rest' : List (List α)} (later : Continues [] rest' rest) : Continues [] rest rest'

/-- After common words a word of the second list is a longer one than that of the first,
and the first list goes on with what it has more. -/
def RunsOver (first second : List (List α)) : Prop :=
  ∃ before word more rest rest', first = before ++ word :: rest ∧ second = before ++ (word ++ more) :: rest' ∧
    more ≠ [] ∧ Continues more rest rest'

/-- The second list goes on where the first ends, with empty words only. -/
def EndsEmpty (first second : List (List α)) : Prop :=
  ∃ tail, second = first ++ tail ∧ tail ≠ [] ∧ ∀ word ∈ tail, word = []

/-- One of the two differences that a concatenation does not show. -/
def Recut (first second : List (List α)) : Prop := RunsOver first second ∨ EndsEmpty first second

variable {first second : List (List α)} {word more : List α}

/-- Two beginnings of one list are the same, or one is longer and has some of what
follows the other. -/
theorem beginnings {word word' rest rest' : List α} (same : word ++ rest = word' ++ rest') :
    word = word' ∧ rest = rest' ∨ (∃ more, more ≠ [] ∧ word' = word ++ more ∧ rest = more ++ rest') ∨
      ∃ more, more ≠ [] ∧ word = word' ++ more ∧ rest' = more ++ rest := by
  rcases List.append_eq_append_iff.mp same with ⟨more, longer, goes⟩ | ⟨more, longer, goes⟩
  · by_cases nothing : more = []
    · subst nothing
      exact .inl ⟨by simpa using longer.symm, by simpa using goes⟩
    · exact .inr (.inl ⟨more, nothing, longer, goes⟩)
  · by_cases nothing : more = []
    · subst nothing
      exact .inl ⟨by simpa using longer, by simpa using goes.symm⟩
    · exact .inr (.inr ⟨more, nothing, longer, goes⟩)

theorem Continues.flatten_eq {rest rest' : List (List α)} (continues : Continues more rest rest') :
    rest.flatten = more ++ rest'.flatten := by
  induction continues with
  | done => rfl
  | within word more _ ih => rw [List.flatten_cons, ih, List.append_assoc]
  | beyond more _ _ ih => rw [List.flatten_cons, ih, List.append_assoc]
  | even _ ih => exact ih.symm

/-- The induction goes over the number of words. -/
theorem continues_of_flatten_eq {words : ℕ} {more : List α} {rest rest' : List (List α)}
    (count : rest.length + rest'.length = words) (same : rest.flatten = more ++ rest'.flatten) :
    Continues more rest rest' := by
  induction words generalizing more rest rest' with
  | zero =>
    obtain ⟨rfl, rfl⟩ : rest = [] ∧ rest' = [] := by simpa using count
    obtain rfl : more = [] := by simpa using same.symm
    exact .done
  | succ words ih =>
    cases rest with
    | nil =>
      obtain ⟨rfl, empty⟩ := List.append_eq_nil_iff.mp same.symm
      cases rest' with
      | nil => cases count
      | cons word rest' =>
        obtain ⟨rfl, empty'⟩ := List.append_eq_nil_iff.mp empty
        exact .even (.within [] [] (ih (by simpa using count) (by simpa using empty')))
    | cons word rest =>
      have fewer : rest.length + rest'.length = words := by
        rw [List.length_cons] at count
        omega
      rcases beginnings same with ⟨rfl, goes⟩ | ⟨ahead, _, rfl, goes⟩ | ⟨ahead, nonempty, rfl, goes⟩
      · simpa using Continues.within word [] (ih fewer goes)
      · exact .within word ahead (ih fewer goes)
      · exact .beyond more nonempty (ih ((Nat.add_comm _ _).trans fewer) goes)

theorem continues_iff {rest rest' : List (List α)} : Continues more rest rest' ↔ rest.flatten = more ++ rest'.flatten :=
  ⟨Continues.flatten_eq, continues_of_flatten_eq rfl⟩

theorem RunsOver.flatten_eq (runs : RunsOver first second) : first.flatten = second.flatten := by
  obtain ⟨before, word, more, rest, rest', rfl, rfl, _, continues⟩ := runs
  simp [continues.flatten_eq]

theorem EndsEmpty.flatten_eq (ends : EndsEmpty first second) : first.flatten = second.flatten := by
  obtain ⟨tail, rfl, _, empty⟩ := ends
  rw [List.flatten_append, List.flatten_eq_nil_iff.mpr empty, List.append_nil]

theorem Recut.flatten_eq (recut : Recut first second) : first.flatten = second.flatten :=
  recut.elim RunsOver.flatten_eq EndsEmpty.flatten_eq

theorem RunsOver.ne (runs : RunsOver first second) : first ≠ second := by
  obtain ⟨before, word, more, rest, rest', rfl, rfl, nonempty, _⟩ := runs
  intro same
  have longer := (List.cons.inj (List.append_cancel_left same)).1
  exact nonempty (List.self_eq_append_right.mp longer)

theorem EndsEmpty.ne (ends : EndsEmpty first second) : first ≠ second := by
  obtain ⟨tail, rfl, nonempty, _⟩ := ends
  intro same
  exact nonempty (List.self_eq_append_right.mp same)

theorem Recut.cons (word : List α) (recut : Recut first second) : Recut (word :: first) (word :: second) := by
  rcases recut with ⟨before, word', more, rest, rest', rfl, rfl, nonempty, goes⟩ | ⟨tail, rfl, nonempty, empty⟩
  · exact .inl ⟨word :: before, word', more, rest, rest', rfl, rfl, nonempty, goes⟩
  · exact .inr ⟨tail, rfl, nonempty, empty⟩

theorem endsEmpty_nil (nonempty : second ≠ []) (empty : second.flatten = []) : EndsEmpty [] second :=
  ⟨second, rfl, nonempty, List.flatten_eq_nil_iff.mp empty⟩

theorem runsOver_cons (nonempty : more ≠ []) (goes : first.flatten = more ++ second.flatten) :
    RunsOver (word :: first) ((word ++ more) :: second) :=
  ⟨[], word, more, first, second, rfl, rfl, nonempty, continues_iff.mpr goes⟩

/-- Lists of words have one concatenation exactly if they are the same or one is a recut
of the other. -/
theorem flatten_eq_iff :
    first.flatten = second.flatten ↔ first = second ∨ Recut first second ∨ Recut second first := by
  constructor
  · intro same
    induction first generalizing second with
    | nil =>
      by_cases nothing : second = []
      · exact .inl nothing.symm
      · exact .inr (.inl (.inr (endsEmpty_nil nothing same.symm)))
    | cons word first ih =>
      cases second with
      | nil => exact .inr (.inr (.inr (endsEmpty_nil (List.cons_ne_nil word first) same)))
      | cons word' second =>
        rcases beginnings same with ⟨rfl, goes⟩ | ⟨more, nonempty, rfl, goes⟩ | ⟨more, nonempty, rfl, goes⟩
        · rcases ih goes with rfl | recut | recut
          · exact .inl rfl
          · exact .inr (.inl (recut.cons word))
          · exact .inr (.inr (recut.cons word))
        · exact .inr (.inl (.inl (runsOver_cons nonempty goes)))
        · exact .inr (.inr (.inl (runsOver_cons nonempty goes)))
  · rintro (rfl | recut | recut)
    · rfl
    · exact recut.flatten_eq
    · exact recut.flatten_eq.symm

theorem beginning_unique {letter : α → Bool} {word word' rest rest' : List α} (letters : ∀ a ∈ word, letter a = true)
    (letters' : ∀ a ∈ word', letter a = true) (stops : ∀ a ∈ rest.head?, letter a = false)
    (stops' : ∀ a ∈ rest'.head?, letter a = false) (same : word ++ rest = word' ++ rest') : word = word' ∧ rest = rest' := by
  rcases beginnings same with equal | ⟨more, nonempty, rfl, rfl⟩ | ⟨more, nonempty, rfl, rfl⟩
  · exact equal
  · obtain ⟨a, tail, rfl⟩ := List.exists_cons_of_ne_nil nonempty
    have letter := letters' a (by simp)
    have none := stops a (by simp)
    simp [letter] at none
  · obtain ⟨a, tail, rfl⟩ := List.exists_cons_of_ne_nil nonempty
    have letter := letters a (by simp)
    have none := stops' a (by simp)
    simp [letter] at none

/-- A word of letters and one of others, neither of them empty. -/
structure Alternates (letter : α → Bool) (entry : List α × List α) : Prop where
  named : entry.1 ≠ []
  letters : ∀ a ∈ entry.1, letter a = true
  valued : entry.2 ≠ []
  others : ∀ a ∈ entry.2, letter a = false

theorem forall_head?_append {word rest : List α} {P : α → Prop} (nonempty : word ≠ []) (all : ∀ a ∈ word, P a) :
    ∀ a ∈ (word ++ rest).head?, P a := by
  obtain ⟨a, tail, rfl⟩ := List.exists_cons_of_ne_nil nonempty
  simpa using all a List.mem_cons_self

/-- Alternating words are told from their concatenation. -/
theorem eq_of_alternates {letter : α → Bool} {entries others : List (List α × List α)}
    (alternates : ∀ entry ∈ entries, Alternates letter entry) (alternates' : ∀ entry ∈ others, Alternates letter entry)
    (same : (entries.flatMap fun entry => entry.1 ++ entry.2) = others.flatMap fun entry => entry.1 ++ entry.2) :
    entries = others := by
  have starts : ∀ {entries : List (List α × List α)}, (∀ entry ∈ entries, Alternates letter entry) →
      ∀ a ∈ (entries.flatMap fun entry => entry.1 ++ entry.2).head?, letter a = true := by
    intro entries alternates
    cases entries with
    | nil => simp
    | cons entry rest =>
      have first := alternates entry List.mem_cons_self
      rw [List.flatMap_cons, List.append_assoc]
      exact forall_head?_append first.named first.letters
  induction entries generalizing others with
  | nil =>
    cases others with
    | nil => rfl
    | cons entry rest =>
      have named := (alternates' entry List.mem_cons_self).named
      simp [named] at same
  | cons entry entries ih =>
    obtain ⟨first, rest⟩ := List.forall_mem_cons.mp alternates
    cases others with
    | nil => simp [first.named] at same
    | cons entry' others =>
      obtain ⟨first', rest'⟩ := List.forall_mem_cons.mp alternates'
      simp only [List.flatMap_cons, List.append_assoc] at same
      obtain ⟨name, later⟩ := beginning_unique first.letters first'.letters
        (forall_head?_append first.valued first.others) (forall_head?_append first'.valued first'.others) same
      obtain ⟨value, last⟩ := @beginning_unique _ (fun a => !letter a) _ _ _ _ (by simpa using first.others)
        (by simpa using first'.others) (by simpa using starts rest) (by simpa using starts rest') later
      rw [Prod.ext name value, ih rest rest' last]

end Goap.Foundation
