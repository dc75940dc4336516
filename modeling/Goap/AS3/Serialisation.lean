import Goap.AS3.State
import Goap.Foundation.Segmentation

namespace Goap.AS3

open Foundation Hashing

variable {Other : Type} [ToString Other]

section

variable {object other : Object Other}

theorem name_ne_empty {rest : List (String × String)} {entry entry' : String × String}
    (sorted : entries object = entry :: rest) (later : entry' ∈ rest) : entry'.1 ≠ "" := by
  have ordered : (entry :: rest).Pairwise fun first second => utf16 first.1.toList < utf16 second.1.toList := by
    rw [← sorted, entries, List.pairwise_map]
    exact sorted_names object
  have below := (List.pairwise_cons.mp ordered).1 entry' later
  intro empty
  rw [empty] at below
  exact absurd below (List.not_lt_nil _)

/-- Empty names and texts at the end of the entries are the only entry. -/
theorem blank_alone {before blanks : List (String × String)} (listed : entries object = before ++ blanks)
    (nonempty : blanks ≠ []) (blank : ∀ entry ∈ blanks, entry = ("", "")) : before = [] ∧ blanks = [("", "")] := by
  have nothing : before = [] := by
    cases before with
    | nil => rfl
    | cons entry rest =>
      obtain ⟨last, member⟩ := List.exists_mem_of_ne_nil blanks nonempty
      have named := name_ne_empty listed (List.mem_append_right rest member)
      exact absurd (congrArg Prod.fst (blank last member)) named
  refine ⟨nothing, ?_⟩
  rw [nothing, List.nil_append] at listed
  cases blanks with
  | nil => exact absurd rfl nonempty
  | cons entry rest =>
    have alone : rest = [] := by
      apply List.eq_nil_iff_forall_not_mem.mpr
      intro last member
      exact name_ne_empty listed member (congrArg Prod.fst (blank last (List.mem_cons_of_mem _ member)))
    rw [alone, blank entry List.mem_cons_self]

/-- Texts go on with empty ones only from no entry to the entry of the empty name. -/
theorem endsEmpty_texts_iff :
    EndsEmpty (texts object) (texts other) ↔ entries object = [] ∧ entries other = [("", "")] := by
  constructor
  · rintro ⟨tail, longer, nonempty, empty⟩
    obtain ⟨more, appended, rfl⟩ := texts_append longer
    have some_ : more ≠ [] := by
      rintro rfl
      exact nonempty rfl
    have blank : ∀ entry ∈ more, entry = ("", "") := by
      intro entry member
      have name := empty _ (List.mem_flatMap.mpr ⟨entry, member, List.mem_cons_self⟩)
      have value := empty _ (List.mem_flatMap.mpr ⟨entry, member, List.mem_cons_of_mem _ List.mem_cons_self⟩)
      exact Prod.ext (String.toList_eq_nil_iff.mp name) (String.toList_eq_nil_iff.mp value)
    obtain ⟨nothing, only⟩ := blank_alone appended some_ blank
    exact ⟨nothing, by rw [appended, nothing, only, List.nil_append]⟩
  · rintro ⟨nothing, only⟩
    refine ⟨[[], []], ?_, List.cons_ne_nil _ _, by simp⟩
    rw [texts, texts, nothing, only]
    rfl

theorem bytes_eq_iff {_bytes _bytes' : ByteArray} :
    (written _bytes object).bytes = (written _bytes' other).bytes ↔
      texts object = texts other ∨ Recut (texts object) (texts other) ∨ Recut (texts other) (texts object) := by
  rw [bytes_written, bytes_written, utf8_injective.eq_iff, flatten_eq_iff]

end

/-- How the contents of a state can be taken for those of another: the names and the texts
are the same, of values that differ; a name or a text is longer than that of the other
state, which goes on with what it has more; or it has nothing, and the other has an empty
name and an empty text. -/
inductive TakenFor (state other : State Other) : Prop
  | values (same : entries state.map = entries other.map) (different : state.at? ≠ other.at?)
  | shifted (runs : RunsOver (texts state.map) (texts other.map))
  | empty (nothing : entries state.map = []) (only : entries other.map = [("", "")])

def Mistakable (state other : State Other) : Prop := TakenFor state other ∨ TakenFor other state

variable {state other : State Other}

theorem at?_ne_of_texts_ne (different : texts state.map ≠ texts other.map) : state.at? ≠ other.at? := by
  intro same
  exact different (texts_eq_iff.mpr fun name => congrArg (fun contents => (contents name).map Value.text) same)

theorem texts_eq_of_entries_eq (same : entries state.map = entries other.map) : texts state.map = texts other.map := by
  rw [texts, texts, same]

theorem TakenFor.at?_ne (taken : TakenFor state other) : state.at? ≠ other.at? := by
  cases taken with
  | values _ different => exact different
  | shifted runs => exact at?_ne_of_texts_ne runs.ne
  | empty nothing only => exact at?_ne_of_texts_ne (endsEmpty_texts_iff.mpr ⟨nothing, only⟩).ne

theorem TakenFor.bytes_eq (taken : TakenFor state other) (_bytes _bytes' : ByteArray) :
    (written _bytes state.map).bytes = (written _bytes' other.map).bytes := by
  apply bytes_eq_iff.mpr
  cases taken with
  | values same _ => exact .inl (texts_eq_of_entries_eq same)
  | shifted runs => exact .inr (.inl (.inl runs))
  | empty nothing only => exact .inr (.inl (.inr (endsEmpty_texts_iff.mpr ⟨nothing, only⟩)))

theorem takenFor_of_recut (recut : Recut (texts state.map) (texts other.map)) : TakenFor state other := by
  rcases recut with runs | ends
  · exact .shifted runs
  · obtain ⟨nothing, only⟩ := endsEmpty_texts_iff.mp ends
    exact .empty nothing only

theorem mistakable_iff (_bytes _bytes' : ByteArray) : Mistakable state other ↔
    state.at? ≠ other.at? ∧ (written _bytes state.map).bytes = (written _bytes' other.map).bytes := by
  constructor
  · rintro (taken | taken)
    · exact ⟨taken.at?_ne, taken.bytes_eq _bytes _bytes'⟩
    · exact ⟨taken.at?_ne.symm, (taken.bytes_eq _bytes' _bytes).symm⟩
  · rintro ⟨different, same⟩
    rcases bytes_eq_iff.mp same with texts | recut | recut
    · exact .inl (.values (eq_of_texts_eq texts) different)
    · exact .inl (takenFor_of_recut recut)
    · exact .inr (takenFor_of_recut recut)

theorem equals_of_bytes {_bytes _bytes' : ByteArray}
    (same : (written _bytes state.map).bytes = (written _bytes' other.map).bytes) : state.equals other = true := by
  rw [State.equals, state.hash_eq, other.hash_eq, hashObject_of_bytes same]
  exact beq_self_eq_true _

theorem entries_single (name : String) (value : Value Other) :
    entries (State.new.put name (some value)).map = [(name, value.text)] := by
  simp [entries, getSortedPairs, State.new, State.put, State.touched, Object.put]

theorem bytes_single (_bytes : ByteArray) (name : String) (value : Value Other) :
    (written _bytes (State.new.put name (some value)).map).bytes = utf8 (name.toList ++ value.text.toList) := by
  rw [bytes_written, texts, entries_single]
  simp

theorem at?_single (name : String) (value : Value Other) (name' : String) :
    (State.new.put name (some value)).at? name' = if name' = name then some value else none :=
  State.at?_put .new name (some value) name'

/-- States with different contents are written as different bytes exactly if they are not
mistakable; where the bytes are the same, so are the states for `equals` and for a
dictionary. -/
theorem hashObject_AP_separates_iff (_bytes _bytes' : ByteArray) (state other : State Other) :
    ((state.at? ≠ other.at? → (written _bytes state.map).bytes ≠ (written _bytes' other.map).bytes) ↔
        ¬ Mistakable state other) ∧
      ((written _bytes state.map).bytes = (written _bytes' other.map).bytes → state.equals other = true ∧
        ∀ (V : Type) (visited : StatesDictionary V) (value : V),
          (visited.setAt state value).at? other = some value) := by
  constructor
  · rw [mistakable_iff _bytes _bytes', not_and]
  · intro same
    have equal := equals_of_bytes same.symm
    refine ⟨equals_of_bytes same, ?_⟩
    intro V visited value
    rw [StatesDictionary.at?_setAt, if_pos equal]

/-- `{a: "bc"}` and `{ab: "c"}`. -/
theorem hashObject_AP_separates_fails : ¬ ∀ (_bytes : ByteArray) (state other : State ℕ),
    state.at? ≠ other.at? → (written _bytes state.map).bytes ≠ (written _bytes other.map).bytes := by
  intro all
  have separated := all .new (State.new.put "a" (some (.string "bc"))) (State.new.put "ab" (some (.string "c")))
  rw [bytes_single, bytes_single] at separated
  refine separated ?_ rfl
  intro same
  have value := congrFun same "a"
  rw [at?_single, at?_single, if_pos rfl, if_neg (by decide)] at value
  cases value

theorem at?_new (name : String) : (State.new : State Other).at? name = none := rfl

theorem texts_new : texts (State.new : State Other).map = [] := by
  simp [texts, entries, getSortedPairs, State.new, State.touched]

theorem exists_mistakable_of_two (state first second : State Other) (different : first.at? ≠ second.at?)
    (bytes : (written .new state.map).bytes = (written .new first.map).bytes)
    (bytes' : (written .new state.map).bytes = (written .new second.map).bytes) : ∃ other, Mistakable state other := by
  by_cases same : state.at? = first.at?
  · exact ⟨second, (mistakable_iff .new .new).mpr ⟨same ▸ different, bytes'⟩⟩
  · exact ⟨first, (mistakable_iff .new .new).mpr ⟨same, bytes⟩⟩

/-- Every state can be taken for another one: what it is written as can be an only name or
an only value too. -/
theorem exists_mistakable (state : State Other) : ∃ other, Mistakable state other := by
  let text := String.ofList (texts state.map).flatten
  have chars : text.toList = (texts state.map).flatten := String.toList_ofList
  have valued : (written .new state.map).bytes =
      (written .new (State.new.put "" (some (.string text)) : State Other).map).bytes := by
    rw [bytes_single, bytes_written, ← chars]
    rfl
  by_cases nothing : text = ""
  · apply exists_mistakable_of_two state .new _ _ _ valued
    · intro same
      have empty := congrFun same ""
      rw [at?_single, if_pos rfl, at?_new] at empty
      cases empty
    · rw [bytes_written, bytes_written, texts_new, ← chars, nothing]
      rfl
  · apply exists_mistakable_of_two state _ (State.new.put text (some (.string ""))) _ valued
    · rw [bytes_single, bytes_written, ← chars]
      exact congrArg utf8 (List.append_nil _).symm
    · intro same
      have empty := congrFun same ""
      rw [at?_single, at?_single, if_pos rfl, if_neg (Ne.symm nothing)] at empty
      cases empty

/-- The names are of letters, the texts of the values of none, and neither are empty. -/
def State.Spelled (letter : Char → Bool) (state : State Other) : Prop :=
  ∀ name value, state.at? name = some value → Alternates letter (name.toList, value.text.toList)

theorem flatten_texts (object : Object Other) : (texts object).flatten =
    ((entries object).map (Prod.map String.toList String.toList)).flatMap fun entry => entry.1 ++ entry.2 := by
  rw [texts]
  induction entries object with
  | nil => rfl
  | cons entry rest ih => simp [ih]

theorem State.Spelled.entries {letter : Char → Bool} (alternates : state.Spelled letter) :
    ∀ entry ∈ (entries state.map).map (Prod.map String.toList String.toList), Alternates letter entry := by
  intro entry member
  obtain ⟨⟨name, text⟩, listed, rfl⟩ := List.mem_map.mp member
  obtain ⟨value, found, rfl⟩ := Option.map_eq_some_iff.mp (mem_entries.mp listed)
  exact alternates name value found

/-- Names and values over different alphabets, such as names without digits and whole
numbers from 0 on, are not mistakable where different values have different texts. -/
theorem not_mistakable_of_alternates {letter : Char → Bool} (alternates : state.Spelled letter)
    (alternates' : other.Spelled letter)
    (injective : ∀ name value value', state.at? name = some value → other.at? name = some value' →
      value.text = value'.text → value = value') : ¬ Mistakable state other := by
  rw [mistakable_iff .new .new]
  rintro ⟨different, same⟩
  rw [bytes_written, bytes_written, utf8_injective.eq_iff] at same
  have told : entries state.map = entries other.map := by
    have chars : Function.Injective String.toList := fun _ _ => String.toList_injective
    apply List.map_injective_iff.mpr (chars.prodMap chars)
    apply eq_of_alternates alternates.entries alternates'.entries
    rw [← flatten_texts, ← flatten_texts]
    exact same
  apply different
  funext name
  have text := entries_eq_iff.mp told name
  cases found : state.at? name with
  | none =>
    rw [State.at?] at found
    rw [found] at text
    exact (Option.map_eq_none_iff.mp text.symm).symm
  | some value =>
    rw [State.at?] at found
    rw [found] at text
    obtain ⟨value', found', equal⟩ := Option.map_eq_some_iff.mp text.symm
    rw [State.at?, found', injective name value value' found found' equal.symm]

end Goap.AS3
