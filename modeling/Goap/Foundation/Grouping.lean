import Mathlib.Data.List.Dedup
import Mathlib.Data.List.Nodup

namespace Goap.Foundation

variable {α Key : Type} [DecidableEq Key] {key : α → Key} {items : List α} {groups : List Key}

/-- The keys of the items, each of them once. -/
def Groups (key : α → Key) (items : List α) (groups : List Key) : Prop :=
  groups.Nodup ∧ ∀ k, k ∈ groups ↔ ∃ item ∈ items, key item = k

def group (key : α → Key) (items : List α) (k : Key) : List α := items.filter fun item => key item = k

theorem Groups.length_eq (grouped : Groups key items groups) : groups.length = (items.map key).dedup.length := by
  obtain ⟨nodup, complete⟩ := grouped
  have same : groups.Perm (items.map key).dedup := by
    rw [List.perm_ext_iff_of_nodup nodup (List.nodup_dedup _)]
    intro k
    rw [complete, List.mem_dedup, List.mem_map]
  exact same.length_eq

theorem length_group (k : Key) : (group key items k).length = (items.map key).count k := by
  rw [group, ← List.countP_eq_length_filter, List.count, List.countP_map]
  congr 1

theorem Groups.length_le (grouped : Groups key items groups) : groups.length ≤ items.length := by
  rw [grouped.length_eq, ← List.length_map (f := key)]
  exact (List.dedup_sublist _).length_le

theorem Groups.length_eq_iff (grouped : Groups key items groups) :
    groups.length = items.length ↔ ∀ k, (group key items k).length ≤ 1 := by
  rw [grouped.length_eq, ← List.length_map (f := key)]
  constructor
  · intro same k
    have distinct : (items.map key).Nodup := by
      rw [← List.dedup_eq_self]
      exact (List.dedup_sublist _).eq_of_length same
    rw [length_group]
    exact List.nodup_iff_count_le_one.mp distinct k
  · intro single
    have distinct : (items.map key).Nodup := by
      rw [List.nodup_iff_count_le_one]
      intro k
      rw [← length_group]
      exact single k
    rw [List.dedup_eq_self.mpr distinct]

end Goap.Foundation
