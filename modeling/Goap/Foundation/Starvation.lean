import Goap.Foundation.TwoListQueue
import Mathlib.Algebra.Group.Action.Defs
import Mathlib.Algebra.Order.BigOperators.Group.List
import Mathlib.Algebra.Order.Ring.Nat
import Mathlib.Data.Prod.Lex
import Mathlib.Order.WellFounded

/-! When nobody starves in a two-list queue. Whatever is served may be replaced by elements of
greater keys, but by fewer than a given number; then who waits and is not served comes nearer
to it with every call. -/

namespace Goap.Foundation.TwoList

variable {α : Type} {key : α → ℤ} {discipline : Discipline} {machine machine' : TwoList α} {item served : α}
  {base : ℕ} {bound k : ℤ} {items : List α}

/-- How many calls an element of a key can take up before one of the key `bound` is served. -/
def weight (base : ℕ) (bound k : ℤ) : ℕ := if k ≤ bound then base ^ (bound - k).toNat else 0

def load (key : α → ℤ) (base : ℕ) (bound : ℤ) (items : List α) : ℕ :=
  (items.map fun item => weight base bound (key item)).sum

theorem load_append (items others : List α) :
    load key base bound (items ++ others) = load key base bound items + load key base bound others := by
  simp [load]

theorem load_cons (item : α) (items : List α) :
    load key base bound (item :: items) = weight base bound (key item) + load key base bound items := by
  simp [load]

theorem load_perm {others : List α} (same : items.Perm others) : load key base bound items = load key base bound others :=
  (same.map _).sum_eq

/-- What replaces an element weighs less than it, or both weigh nothing. -/
theorem load_replacement (above : ∀ other ∈ items, k < key other) (few : items.length < base) :
    load key base bound items < weight base bound k ∨ load key base bound items = 0 ∧ bound < k := by
  rcases lt_or_ge bound k with beyond | within
  · right
    refine ⟨List.sum_eq_zero ?_, beyond⟩
    intro amount listed
    obtain ⟨other, member, rfl⟩ := List.mem_map.mp listed
    exact if_neg (by have := above other member; omega)
  · left
    have room : 0 < base := Nat.zero_lt_of_lt few
    rw [weight, if_pos within]
    obtain ⟨gap, distance⟩ : ∃ gap, (bound - k).toNat = gap := ⟨_, rfl⟩
    rw [distance]
    cases gap with
    | zero =>
      have nothing : load key base bound items = 0 := by
        refine List.sum_eq_zero ?_
        intro amount listed
        obtain ⟨other, member, rfl⟩ := List.mem_map.mp listed
        exact if_neg (by have := above other member; omega)
      rw [nothing]
      exact Nat.pow_pos room
    | succ gap =>
      have each : ∀ amount ∈ items.map fun other => weight base bound (key other), amount ≤ base ^ gap := by
        intro amount listed
        obtain ⟨other, member, rfl⟩ := List.mem_map.mp listed
        have later := above other member
        unfold weight
        split
        · exact Nat.pow_le_pow_right room (by omega)
        · exact Nat.zero_le _
      have total := List.sum_le_card_nsmul _ _ each
      rw [List.length_map, smul_eq_mul] at total
      rw [Nat.pow_succ, Nat.mul_comm]
      exact total.trans_lt (Nat.mul_lt_mul_of_pos_right few (Nat.pow_pos room))

variable [DecidableEq α]

/-- How many elements can be served before a pending one joins the active ones. -/
def wait (machine : TwoList α) (item : α) : ℕ := if item ∈ machine.settle.active then 0 else machine.settle.active.length

/-- How far an element is from being served. -/
def rank (key : α → ℤ) (base : ℕ) (machine : TwoList α) (item : α) : ℕ ×ₗ ℕ :=
  toLex (load key base (key item) machine.contents, machine.wait item)

theorem wait_le (machine : TwoList α) (item : α) : machine.wait item ≤ machine.settle.active.length := by
  unfold wait
  split
  · exact Nat.zero_le _
  · exact Nat.le_refl _

theorem wait_of_active (member : item ∈ machine.active) : machine.wait item = 0 := by
  rw [wait, settle_eq_self (List.ne_nil_of_mem member), if_pos member]

/-- Whoever waits and is not served still waits, but is nearer to it. -/
theorem rank_lt_of_pop (popped : machine.pop key discipline = (some served, machine')) (waits : item ∈ machine.contents)
    (other : item ≠ served) (above : ∀ next ∈ items, key served < key next) (few : items.length < base) :
    item ∈ ({ machine' with pending := machine'.pending ++ items } : TwoList α).contents ∧
      rank key base { machine' with pending := machine'.pending ++ items } item < rank key base machine item := by
  rcases pop_cases key discipline machine with ⟨_, none⟩ | ⟨first, before, after, split, least, _, _, some⟩
  · cases none.symm.trans popped
  obtain ⟨own, left⟩ := Prod.mk.inj (some.symm.trans popped)
  cases own
  have moved : machine.contents.Perm (served :: machine'.contents) := by
    rw [← settle_contents, contents, split, ← left, List.append_assoc]
    refine List.perm_middle.trans ?_
    split_ifs <;> simp [contents]
  have waits' : item ∈ machine'.contents := (List.mem_cons.mp (moved.mem_iff.mp waits)).resolve_left other
  have grown : ({ machine' with pending := machine'.pending ++ items } : TwoList α).contents = machine'.contents ++ items := by
    simp [contents]
  refine ⟨grown ▸ List.mem_append_left _ waits', ?_⟩
  rw [rank, rank, grown, load_append, load_perm moved, load_cons, Prod.Lex.toLex_lt_toLex]
  have replaced : load key base (key item) items < weight base (key item) (key served) ∨
      load key base (key item) items = 0 ∧ key item < key served := load_replacement above few
  rcases replaced with lighter | ⟨nothing, beyond⟩
  · left
    omega
  · right
    have absent : item ∉ machine.settle.active := fun present => absurd (least item present) (by omega)
    have pending : item ∈ machine.settle.pending := by
      rw [← settle_contents] at waits
      exact (List.mem_append.mp waits).resolve_left absent
    have lightest : weight base (key item) (key served) = 0 := if_neg (by omega)
    have lighter : load key base (key item) machine'.contents + load key base (key item) items =
        weight base (key item) (key served) + load key base (key item) machine'.contents := by omega
    refine ⟨lighter, ?_⟩
    have before_wait : machine.wait item = (before ++ served :: after).length := by rw [wait, if_neg absent, split]
    show wait _ item < machine.wait item
    rw [before_wait, ← left]
    by_cases shared : ((before ++ after).any fun other => key other = key served) = true
    · -- the key is not used up, so one active element less stands before the pending ones
      rw [if_pos shared]
      have occupied : before ++ after ≠ [] := by
        intro vacant
        rw [vacant] at shared
        cases shared
      refine (wait_le _ _).trans_lt ?_
      rw [settle_eq_self occupied]
      simp only [List.length_append, List.length_cons]
      omega
    · rw [if_neg shared, wait_of_active (List.mem_append_right _ pending)]
      simp

end Goap.Foundation.TwoList
