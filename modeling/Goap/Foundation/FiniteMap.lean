import Goap.Foundation.HashedList
import Mathlib.Data.List.Perm.Subperm
import Mathlib.Data.Set.Card

namespace Goap.Foundation.HashedList

variable {Key Value : Type} {fits : Key → Key → Bool} {good : Key → Prop} {entries others : List (Key × Value)}
  {map map' : Key → Option Value} {probe other : Key} {value : Value}

/-- Between the keys in use the match is equality. -/
def MatchesExactly (fits : Key → Key → Bool) (good : Key → Prop) : Prop :=
  ∀ probe stored, good probe → good stored → (fits probe stored = true ↔ probe = stored)

/-- A container of keys in use answers its probes as a map does. -/
structure Represents (fits : Key → Key → Bool) (good : Key → Prop) (entries : List (Key × Value))
    (map : Key → Option Value) : Prop where
  distinct : Distinct fits entries
  keys : ∀ entry ∈ entries, good entry.1
  reads : ∀ key, good key → lookup fits key entries = map key

theorem Represents.nil : Represents fits good ([] : List (Key × Value)) fun _ => none :=
  ⟨.nil, by simp, fun _ _ => rfl⟩

theorem Represents.congr (represents : Represents fits good entries map) (same : ∀ key, good key → map key = map' key) :
    Represents fits good entries map' :=
  ⟨represents.distinct, represents.keys, fun key known => (represents.reads key known).trans (same key known)⟩

theorem MatchesExactly.eq_false (exact : MatchesExactly fits good) (known : good other) (known' : good probe)
    (apart : other ≠ probe) : fits other probe = false :=
  Bool.eq_false_iff.mpr fun accepted => apart ((exact other probe known known').mp accepted)

theorem lookup_behind (exact : MatchesExactly fits good) {entry : Key × Value} (distinct : Distinct fits (entry :: entries))
    (keys : ∀ other ∈ entry :: entries, good other.1) : lookup fits entry.1 entries = none := by
  cases found : lookup fits entry.1 entries with
  | none => rfl
  | some value =>
    obtain ⟨key, member, accepted⟩ := lookup_mem found
    have inside := keys (key, value) (List.mem_cons_of_mem _ member)
    have own := keys entry List.mem_cons_self
    have same := (exact entry.1 key own inside).mp accepted
    have apart := (List.pairwise_cons.mp distinct).1 (key, value) member
    rw [(exact key entry.1 inside own).mpr same.symm] at apart
    cases apart

theorem Represents.mem_iff (represents : Represents fits good entries map) (exact : MatchesExactly fits good) :
    (probe, value) ∈ entries ↔ good probe ∧ map probe = some value := by
  constructor
  · intro member
    have known := represents.keys _ member
    refine ⟨known, ?_⟩
    rw [← represents.reads probe known]
    exact lookup_of_mem represents.distinct member ((exact probe probe known known).mpr rfl)
  · intro both
    obtain ⟨known, found⟩ := both
    rw [← represents.reads probe known] at found
    obtain ⟨key, member, accepted⟩ := lookup_mem found
    rwa [(exact probe key known (represents.keys _ member)).mp accepted]

theorem lookup_insert_apart (exact : MatchesExactly fits good) (keys : ∀ entry ∈ entries, good entry.1) (known : good probe)
    (known' : good other) (apart : other ≠ probe) :
    lookup fits other (HashedList.insert fits probe value entries) = lookup fits other entries := by
  induction entries with
  | nil => simp [HashedList.insert, lookup, exact.eq_false known' known apart]
  | cons entry rest ih =>
    have own := keys entry List.mem_cons_self
    by_cases accepted : fits probe entry.1 = true
    · have same := (exact probe entry.1 known own).mp accepted
      have refused := exact.eq_false known' own (same ▸ apart)
      simp [HashedList.insert, accepted, lookup_cons, refused]
    · simp [HashedList.insert, accepted, lookup_cons, ih fun entry member => keys entry (List.mem_cons_of_mem _ member)]

theorem lookup_erase_apart (exact : MatchesExactly fits good) (keys : ∀ entry ∈ entries, good entry.1) (known : good probe)
    (known' : good other) (apart : other ≠ probe) :
    lookup fits other (HashedList.erase fits probe entries) = lookup fits other entries := by
  induction entries with
  | nil => rfl
  | cons entry rest ih =>
    have own := keys entry List.mem_cons_self
    by_cases accepted : fits probe entry.1 = true
    · have same := (exact probe entry.1 known own).mp accepted
      have refused := exact.eq_false known' own (same ▸ apart)
      simp [HashedList.erase, accepted, lookup_cons, refused]
    · have later := ih fun entry member => keys entry (List.mem_cons_of_mem _ member)
      rw [HashedList.erase] at later
      simp [HashedList.erase, accepted, lookup_cons, later]

theorem lookup_erase_self (exact : MatchesExactly fits good) (distinct : Distinct fits entries)
    (keys : ∀ entry ∈ entries, good entry.1) (known : good probe) :
    lookup fits probe (HashedList.erase fits probe entries) = none := by
  induction entries with
  | nil => rfl
  | cons entry rest ih =>
    have own := keys entry List.mem_cons_self
    by_cases accepted : fits probe entry.1 = true
    · have same := (exact probe entry.1 known own).mp accepted
      have dropped : HashedList.erase fits probe (entry :: rest) = rest := by simp [HashedList.erase, accepted]
      rw [dropped, same]
      exact lookup_behind exact distinct keys
    · have later := ih distinct.of_cons fun entry member => keys entry (List.mem_cons_of_mem _ member)
      rw [HashedList.erase] at later
      simp [HashedList.erase, accepted, lookup_cons, later]

section

variable [DecidableEq Key]

theorem Represents.insert (represents : Represents fits good entries map) (exact : MatchesExactly fits good)
    (known : good probe) (value : Value) :
    Represents fits good (HashedList.insert fits probe value entries) (Function.update map probe (some value)) where
  distinct := represents.distinct.insert
  keys entry member := by
    rcases mem_insert member with old | ⟨_, own | ⟨previous, present, same⟩⟩
    · exact represents.keys entry old
    · exact own ▸ known
    · exact same ▸ represents.keys previous present
  reads key inside := by
    by_cases same : key = probe
    · subst same
      rw [Function.update_self, lookup_insert fun _ => rfl, (exact key key known known).mpr rfl, Bool.or_true, if_pos rfl]
    · rw [Function.update_of_ne same, lookup_insert_apart exact represents.keys known inside same, represents.reads key inside]

theorem Represents.erase (represents : Represents fits good entries map) (exact : MatchesExactly fits good)
    (known : good probe) : Represents fits good (HashedList.erase fits probe entries) (Function.update map probe none) where
  distinct := represents.distinct.erase probe
  keys entry member := represents.keys entry (List.mem_of_mem_eraseP member)
  reads key inside := by
    by_cases same : key = probe
    · subst same
      rw [Function.update_self]
      exact lookup_erase_self exact represents.distinct represents.keys known
    · rw [Function.update_of_ne same, lookup_erase_apart exact represents.keys known inside same, represents.reads key inside]

theorem Represents.insertAll (represents : Represents fits good entries map) (exact : MatchesExactly fits good)
    (known : ∀ pair ∈ others, good pair.1) :
    Represents fits good (others.foldl (fun table pair => HashedList.insert fits pair.1 pair.2 table) entries)
      (others.foldl (fun map pair => Function.update map pair.1 (some pair.2)) map) := by
  induction others generalizing entries map with
  | nil => exact represents
  | cons pair rest ih =>
    obtain ⟨own, later⟩ := List.forall_mem_cons.mp known
    exact ih (represents.insert exact own pair.2) later

theorem foldl_update_apply (exact : MatchesExactly fits good) (distinct : Distinct fits others)
    (keys : ∀ entry ∈ others, good entry.1) (known : good probe) :
    others.foldl (fun (map : Key → Option Value) pair => Function.update map pair.1 (some pair.2)) map probe =
      (lookup fits probe others).or (map probe) := by
  induction others generalizing map with
  | nil => rfl
  | cons entry rest ih =>
    obtain ⟨own, later⟩ := List.forall_mem_cons.mp keys
    rw [List.foldl_cons, ih distinct.of_cons later, lookup_cons]
    by_cases same : probe = entry.1
    · subst same
      -- the later entries have other keys, so what is stored here stays
      rw [lookup_behind exact distinct keys, (exact entry.1 entry.1 own own).mpr rfl, Function.update_self]
      rfl
    · rw [Function.update_of_ne same, exact.eq_false known own same, if_neg Bool.false_ne_true]

theorem Represents.merge (represents : Represents fits good entries map) (represents' : Represents fits good others map')
    (exact : MatchesExactly fits good) :
    Represents fits good (others.foldl (fun table pair => HashedList.insert fits pair.1 pair.2 table) entries)
      fun key => (map' key).or (map key) := by
  refine (represents.insertAll exact represents'.keys).congr ?_
  intro key inside
  rw [foldl_update_apply exact represents'.distinct represents'.keys inside, represents'.reads key inside]

end

theorem Represents.nodup (represents : Represents fits good entries map) (exact : MatchesExactly fits good) :
    (entries.map Prod.fst).Nodup := by
  rw [List.Nodup, List.pairwise_map]
  refine represents.distinct.imp_of_mem ?_
  intro earlier later first second apart same
  rw [(exact later.1 earlier.1 (represents.keys _ second) (represents.keys _ first)).mpr same.symm] at apart
  cases apart

theorem Represents.mem_keys (represents : Represents fits good entries map) (exact : MatchesExactly fits good) :
    probe ∈ entries.map Prod.fst ↔ good probe ∧ (map probe).isSome := by
  simp only [List.mem_map, Prod.exists, exists_and_right, exists_eq_right, represents.mem_iff exact, exists_and_left,
    Option.isSome_iff_exists]

theorem Represents.length_eq (represents : Represents fits good entries map) (exact : MatchesExactly fits good) :
    entries.length = {key | good key ∧ (map key).isSome}.ncard := by
  classical
  have listed : {key | good key ∧ (map key).isSome} = ((entries.map Prod.fst).toFinset : Set Key) := by
    ext key
    rw [List.coe_toFinset]
    exact (represents.mem_keys exact).symm
  rw [listed, Set.ncard_coe_finset, List.toFinset_card_of_nodup (represents.nodup exact), List.length_map]

/-- A container with as many entries as another, all of whose keys are found there, has all keys
of the other. -/
theorem Represents.isSome_of_length_eq (represents : Represents fits good entries map)
    (represents' : Represents fits good others map') (exact : MatchesExactly fits good)
    (length : entries.length = others.length) (found : ∀ key, good key → (map key).isSome → (map' key).isSome)
    (known : good probe) (stored : (map' probe).isSome) : (map probe).isSome := by
  have subset : entries.map Prod.fst ⊆ others.map Prod.fst := by
    intro key member
    obtain ⟨inside, present⟩ := (represents.mem_keys exact).mp member
    exact (represents'.mem_keys exact).mpr ⟨inside, found key inside present⟩
  have same : (entries.map Prod.fst).Perm (others.map Prod.fst) := by
    refine (List.subperm_of_subset (represents.nodup exact) subset).perm_of_length_le ?_
    rw [List.length_map, List.length_map, length]
  exact ((represents.mem_keys exact).mp (same.mem_iff.mpr ((represents'.mem_keys exact).mpr ⟨known, stored⟩))).2

end Goap.Foundation.HashedList
