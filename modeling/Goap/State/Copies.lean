import Goap.State.CellStore

namespace Goap

open FloatOps Foundation

variable {F : Type} [FloatOps F]

/-- How a state comes to hold what another one holds. -/
inductive Copying where
  | assign
  | copyConstructor
  | merge
deriving DecidableEq, Repr

/-- The copy. `merge` puts every entry into an empty state; the others copy the map,
whose values are pointers. None of them keeps a hash. -/
def Copying.copy (store : CellStore F) (original : StoredState F) : Copying → StoredState F
  | .assign => { original with cachedHash := 0 }
  | .copyConstructor => { original with cachedHash := 0 }
  | .merge => StoredState.putAll store .new original.data

/-- An operation on the copy. `newValue` makes an operand for the others. -/
inductive CopyCall (F : Type) where
  | newValue (value : StateValue F)
  | put (key value : Nat)
  | add (key value : Nat)
  | mul (key value : Nat)
  | remove (key : Nat)

def CopyCall.toExecutor : CopyCall F → ExecutorCall F
  | .newValue value => .newValue value
  | .put key value => .put key value
  | .add key value => .add key value
  | .mul key value => .mul key value
  | .remove key => .remove key

namespace CellStore

variable {kept : List Nat} {store store' store'' : CellStore F}

omit [FloatOps F] in
theorem cells_set (store : CellStore F) (address : Nat) (value : StateValue F) :
    (store.set address value).cells address = value := Function.update_self ..

omit [FloatOps F] in
theorem agreeOn_set_iff {address : Nat} {value : StateValue F} :
    AgreeOn kept store (store.set address value) ↔ (address ∈ kept → value = store.cells address) := by
  constructor
  · intro agree member
    exact (cells_set ..).symm.trans (agree address member)
  · intro unchanged other member
    by_cases own : other = address
    · subst own
      exact (cells_set ..).trans (unchanged member)
    · exact Function.update_of_ne own _ _

omit [FloatOps F] in
theorem AgreeOn.trans_iff (first : AgreeOn kept store store') :
    AgreeOn kept store store'' ↔ AgreeOn kept store' store'' := by
  constructor
  · intro whole address member
    exact (whole address member).trans (first address member).symm
  · exact first.trans

end CellStore

namespace HeldState

def copyStep (this : Execution F) (call : CopyCall F) : Option (Unit × Execution F) :=
  (this.step call.toExecutor).map ((), ·)

def copied (held : HeldState F) (copying : Copying) : Execution F :=
  ⟨held.store, copying.copy held.store held.state, []⟩

/-- The original has the entries, the cost and the hash that it had when it was copied. -/
def ReadsAsCopied (held : HeldState F) (_ : Execution F) (_ : CopyCall F) (_ : Unit) (after : Execution F) : Prop :=
  held.state.reading after.store = held.state.reading held.store

/-- The value under a key of the copy is no object of the original, or adding to it
changes nothing. -/
def AddsApart (held : HeldState F) (this : Execution F) (key value : Nat) : Prop :=
  ∀ current, this.newState.find? this.store key = some current → current ∈ held.state.addresses →
    (this.store.cells current).add (this.store.cells value) = this.store.cells current

/-- `add` and `mul`, the calls that write through the pointer under a key, stay apart
from the original. -/
def WritesApart (held : HeldState F) (this : Execution F) (call : CopyCall F) (_ : Unit) (_ : Execution F) : Prop :=
  match call with
  | .add key value => held.AddsApart this key value
  | .mul key value => held.AddsApart this key value
  | _ => True

variable {held : HeldState F} {this after : Execution F}

theorem addTo_agreeOn_iff {key value : Nat} (ran : this.addTo key value = some after) :
    CellStore.AgreeOn held.state.addresses this.store after.store ↔ held.AddsApart this key value := by
  obtain ⟨current, found, rfl⟩ := Option.map_eq_some_iff.mp ran
  rw [CellStore.agreeOn_set_iff]
  constructor
  · intro unchanged other same
    obtain rfl : current = other := Option.some.inj (found.symm.trans same)
    exact unchanged
  · exact fun apart => apart current found

/-- One operation leaves the value objects of the original as they were exactly if it
writes apart from them. -/
theorem copyStep_agreeOn_iff {call : CopyCall F} {answer : Unit}
    (allocated : ∀ address ∈ held.state.addresses, address < this.store.fresh)
    (ran : copyStep this call = some (answer, after)) :
    CellStore.AgreeOn held.state.addresses this.store after.store ↔ held.WritesApart this call answer after := by
  obtain ⟨_, ran, same⟩ := Option.map_eq_some_iff.mp ran
  cases same
  cases call with
  | newValue value =>
    cases ran
    exact iff_of_true (CellStore.agreeOn_alloc allocated) trivial
  | put key value | remove key =>
    cases ran
    exact iff_of_true (.refl _ _) trivial
  | add key value => exact addTo_agreeOn_iff ran
  | mul key value => exact addTo_agreeOn_iff ran

theorem copyStep_fresh {call : CopyCall F} {answer : Unit} (ran : copyStep this call = some (answer, after)) :
    this.store.fresh ≤ after.store.fresh := by
  obtain ⟨_, ran, same⟩ := Option.map_eq_some_iff.mp ran
  cases same
  cases call with
  | newValue value =>
    cases ran
    exact Nat.le_succ _
  | put key value | remove key =>
    cases ran
    exact Nat.le_refl _
  | add key value | mul key value =>
    obtain ⟨_, _, rfl⟩ := Option.map_eq_some_iff.mp ran
    exact Nat.le_refl _

/-- After a copy by `assign`, the copy constructor or `merge`, the original reads the
same after every operation on the copy, exactly if every `add` and `mul` meets a
value that is no object of the original or adds nothing to it. -/
theorem allSteps_readsAsCopied_iff (held : HeldState F) (copying : Copying) (calls : List (CopyCall F)) :
    AllSteps copyStep held.ReadsAsCopied (held.copied copying) calls ↔
      AllSteps copyStep held.WritesApart (held.copied copying) calls := by
  apply allSteps_iff fun this => CellStore.AgreeOn held.state.addresses held.store this.store ∧
    ∀ address ∈ held.state.addresses, address < this.store.fresh
  · intro this call answer after holds ran
    rw [ReadsAsCopied, StoredState.reading_eq_iff, holds.1.trans_iff]
    exact copyStep_agreeOn_iff holds.2 ran
  · intro this call answer after holds ran apart
    refine ⟨holds.1.trans ((copyStep_agreeOn_iff holds.2 ran).mpr apart), ?_⟩
    exact fun address member => (holds.2 address member).trans_le (copyStep_fresh ran)
  · exact ⟨.refl _ _, held.allocated⟩

/-- The key x, at address 2, has the value 1, at address 3. -/
def single : HeldState ℚ where
  store := ⟨fun address => if address = 2 then .ofString "x" else if address = 3 then .scalar 1 else ⟨[]⟩, 4, by decide⟩
  state := ⟨[(2, 3)], 1, 0⟩
  allocated := by
    show ∀ address ∈ [2, 3], address < 4
    decide

/-- Adding the value to itself in a copy changes it in the original. -/
theorem allSteps_readsAsCopied_fails : ¬ AllSteps copyStep single.ReadsAsCopied (single.copied .assign) [.add 2 3] := by
  intro all
  have found : (single.copied .assign).newState.find? (single.copied .assign).store 2 = some 3 := by decide +kernel
  obtain ⟨after, ran, written⟩ : ∃ after, copyStep (single.copied .assign) (.add 2 3) = some ((), after) ∧
      after.store.cells 3 = .scalar 2 := by
    rw [copyStep, CopyCall.toExecutor, Execution.step, Execution.addTo, found]
    refine ⟨_, rfl, ?_⟩
    decide +kernel
  have same := StoredState.reading_eq_iff.mp ((allSteps_cons ran).mp all).1 3 (by decide)
  rw [written] at same
  exact absurd same (by decide +kernel)

end HeldState

end Goap
