import Mathlib.Data.List.Basic

/-! An unordered container as the list of its entries in iteration order. A
probe selects the first entry its Boolean match accepts; nothing is assumed of
the match, so hash functions that disagree with equality are covered too. -/

namespace Goap.Foundation.HashedList

variable {Key Value : Type} (fits : Key → Key → Bool)

/-- The value stored under the first key that fits the probe. -/
def lookup (probe : Key) (entries : List (Key × Value)) : Option Value :=
  (entries.find? fun entry => fits probe entry.1).map Prod.snd

/-- Overwrite the entry that fits the probe, keeping its stored key, or append
a new one. -/
def insert (probe : Key) (value : Value) : List (Key × Value) → List (Key × Value)
  | [] => [(probe, value)]
  | entry :: rest =>
    if fits probe entry.1 then (entry.1, value) :: rest
    else entry :: insert probe value rest

/-- No key fits a key stored before it: what a sequence of insertions leaves. -/
def Distinct (entries : List (Key × Value)) : Prop :=
  entries.Pairwise fun earlier later => fits later.1 earlier.1 = false

instance (entries : List (Key × Value)) : Decidable (Distinct fits entries) :=
  inferInstanceAs (Decidable (entries.Pairwise _))

variable {fits} {probe : Key} {value : Value} {entries : List (Key × Value)}

theorem lookup_mem (found : lookup fits probe entries = some value) :
    ∃ key, (key, value) ∈ entries ∧ fits probe key = true := by
  obtain ⟨entry, selected, same⟩ := Option.map_eq_some_iff.mp found
  subst same
  exact ⟨entry.1, List.mem_of_find?_eq_some selected,
    List.find?_some (p := fun entry : Key × Value => fits probe entry.1) selected⟩

theorem lookup_cons (entry : Key × Value) : lookup fits probe (entry :: entries) =
    if fits probe entry.1 then some entry.2 else lookup fits probe entries := by
  unfold lookup
  rw [List.find?_cons]
  cases fits probe entry.1 <;> simp

theorem lookup_congr {other : Key} (same : ∀ entry ∈ entries, fits probe entry.1 = fits other entry.1) :
    lookup fits probe entries = lookup fits other entries := by
  induction entries with
  | nil => rfl
  | cons entry rest ih =>
    rw [lookup_cons, lookup_cons, same entry (by simp)]
    rw [ih fun entry member => same entry (by simp [member])]

theorem lookup_of_mem (distinct : Distinct fits entries) {entry : Key × Value} (member : entry ∈ entries)
    (reflexive : fits entry.1 entry.1 = true) : lookup fits entry.1 entries = some entry.2 := by
  induction entries with
  | nil => simp at member
  | cons head rest ih =>
    obtain ⟨apart, remaining⟩ := List.pairwise_cons.mp distinct
    rw [lookup_cons]
    rcases List.mem_cons.mp member with same | later
    · subst same
      rw [if_pos reflexive]
    · rw [apart entry later, if_neg (by simp), ih remaining later]

theorem insert_of_absent (absent : ∀ entry ∈ entries, fits probe entry.1 = false) :
    insert fits probe value entries = entries ++ [(probe, value)] := by
  induction entries with
  | nil => rfl
  | cons entry rest ih =>
    have missing := absent entry (by simp)
    simp only [insert, missing, Bool.false_eq_true, ↓reduceIte, List.cons_append]
    rw [ih fun entry member => absent entry (by simp [member])]

/-- A probe that accepts the same stored keys finds the value just stored, if it
found one before or accepts the probe it was stored under. -/
theorem lookup_insert {other : Key} (same : ∀ key, fits other key = fits probe key) :
    lookup fits other (insert fits probe value entries) =
      if (lookup fits other entries).isSome || fits other probe then some value else none := by
  induction entries with
  | nil =>
    rw [insert, lookup_cons]
    simp [lookup]
  | cons entry rest ih =>
    unfold insert
    cases accepted : fits probe entry.1 with
    | true => simp [lookup_cons, same, accepted]
    | false =>
      simp only [Bool.false_eq_true, ↓reduceIte, lookup_cons, same entry.1, accepted]
      exact ih

theorem lookup_insert_other {other : Key}
    (apart : ∀ key, fits probe key = true → fits other key = false)
    (fresh : fits other probe = false) :
    lookup fits other (insert fits probe value entries) = lookup fits other entries := by
  induction entries with
  | nil => simp [insert, fresh, lookup]
  | cons entry rest ih =>
    by_cases accepted : fits probe entry.1 = true
    · simp [insert, lookup_cons, accepted, apart entry.1 accepted]
    · simp [insert, lookup_cons, accepted, ih]

/-- An entry after an insertion is an old one or carries the new value, under
the probe or under the stored key that the probe fits. -/
theorem mem_insert {entry : Key × Value} (member : entry ∈ insert fits probe value entries) :
    entry ∈ entries ∨ entry.2 = value ∧ (entry.1 = probe ∨ ∃ previous ∈ entries, previous.1 = entry.1) := by
  induction entries with
  | nil =>
    right
    have same := List.mem_singleton.mp member
    exact ⟨by rw [same], .inl (by rw [same])⟩
  | cons head rest ih =>
    unfold insert at member
    split at member
    · rcases List.mem_cons.mp member with same | later
      · exact .inr ⟨by rw [same], .inr ⟨head, by simp, by rw [same]⟩⟩
      · exact .inl (by simp [later])
    · rcases List.mem_cons.mp member with same | later
      · exact .inl (by simp [same])
      · rcases ih later with old | ⟨own, same | ⟨previous, present, same⟩⟩
        · exact .inl (by simp [old])
        · exact .inr ⟨own, .inl same⟩
        · exact .inr ⟨own, .inr ⟨previous, by simp [present], same⟩⟩

/-- Where the match is equality of keys, insertion does not depend on the order
of the entries. -/
theorem insert_perm {other : List (Key × Value)} (same : entries.Perm other)
    (apart : entries.Pairwise fun earlier later => earlier.1 ≠ later.1)
    (exact : ∀ entry ∈ entries, fits probe entry.1 = true ↔ probe = entry.1) :
    (insert fits probe value entries).Perm (insert fits probe value other) := by
  induction same with
  | nil => rfl
  | cons entry _ ih =>
    have tail := ih apart.of_cons fun entry member => exact entry (by simp [member])
    unfold insert
    split
    · exact List.Perm.cons _ (by assumption)
    · exact tail.cons entry
  | swap first second rest =>
    have distinct : second.1 ≠ first.1 := (List.pairwise_cons.mp apart).1 first (by simp)
    have one := exact first (by simp)
    have two := exact second (by simp)
    by_cases left : probe = first.1
    · have right : probe ≠ second.1 := fun same => distinct (same.symm.trans left)
      simp only [insert, one.mpr left, Bool.eq_false_iff.mpr fun fit => right (two.mp fit), Bool.false_eq_true,
        ↓reduceIte]
      exact .swap _ _ _
    · simp only [insert, Bool.eq_false_iff.mpr fun fit => left (one.mp fit), Bool.false_eq_true, ↓reduceIte]
      split <;> exact .swap _ _ _
  | trans first _ ih ih' =>
    refine (ih apart exact).trans (ih' ((first.pairwise_iff fun apart => apart.symm).mp apart) ?_)
    exact fun entry member => exact entry (first.mem_iff.mpr member)

theorem Distinct.insert (distinct : Distinct fits entries) :
    Distinct fits (insert fits probe value entries) := by
  induction entries with
  | nil => simp [HashedList.insert, Distinct]
  | cons entry rest ih =>
    obtain ⟨apart, remaining⟩ := List.pairwise_cons.mp distinct
    unfold HashedList.insert
    split
    · exact List.pairwise_cons.mpr ⟨apart, remaining⟩
    · rename_i rejected
      refine List.pairwise_cons.mpr ⟨?_, ih remaining⟩
      intro later member
      rcases mem_insert member with old | ⟨_, own | ⟨previous, present, same⟩⟩
      · exact apart later old
      · rw [own]
        exact Bool.eq_false_iff.mpr rejected
      · rw [← same]
        exact apart previous present

theorem insertAll_append (stored : List (Key × Value)) (distinct : Distinct fits (stored ++ entries)) :
    entries.foldl (fun table entry => HashedList.insert fits entry.1 entry.2 table) stored =
      stored ++ entries := by
  induction entries generalizing stored with
  | nil => simp
  | cons entry rest ih =>
    have absent : ∀ previous ∈ stored, fits entry.1 previous.1 = false :=
      fun previous member => (List.pairwise_append.mp distinct).2.2 previous member entry (by simp)
    rw [List.foldl_cons, insert_of_absent absent, ih (stored ++ [entry]) (by simpa using distinct)]
    simp

theorem insertAll (distinct : Distinct fits entries) :
    entries.foldl (fun table entry => HashedList.insert fits entry.1 entry.2 table) [] = entries := by
  simpa using insertAll_append [] (by simpa using distinct)

def erase (fits : Key → Key → Bool) (probe : Key) (entries : List (Key × Value)) : List (Key × Value) :=
  entries.eraseP fun entry => fits probe entry.1

theorem Distinct.erase (distinct : Distinct fits entries) (probe : Key) :
    Distinct fits (erase fits probe entries) :=
  List.Pairwise.sublist List.eraseP_sublist distinct

section

variable {Key' Value' : Type} {fits' : Key' → Key' → Bool} {read : Key → Key'} {readValue : Value → Value'}

theorem lookup_map (same : ∀ probe stored, fits' (read probe) (read stored) = fits probe stored) :
    lookup fits' (read probe) (entries.map (Prod.map read readValue)) = (lookup fits probe entries).map readValue := by
  induction entries with
  | nil => rfl
  | cons entry rest ih =>
    rw [List.map_cons, lookup_cons, lookup_cons, ih, Prod.map_fst, same]
    split <;> rfl

theorem insert_map (same : ∀ probe stored, fits' (read probe) (read stored) = fits probe stored) :
    (insert fits probe value entries).map (Prod.map read readValue) =
      insert fits' (read probe) (readValue value) (entries.map (Prod.map read readValue)) := by
  induction entries with
  | nil => rfl
  | cons entry rest ih =>
    rw [List.map_cons, insert, insert, Prod.map_fst, same]
    split
    · rfl
    · rw [List.map_cons, ih]

theorem erase_map (same : ∀ probe stored, fits' (read probe) (read stored) = fits probe stored) :
    (erase fits probe entries).map (Prod.map read readValue) =
      erase fits' (read probe) (entries.map (Prod.map read readValue)) := by
  rw [erase, erase, List.eraseP_map]
  congr 2
  funext entry
  exact (same probe entry.1).symm

end

end Goap.Foundation.HashedList
