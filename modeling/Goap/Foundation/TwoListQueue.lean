import Mathlib.Data.List.Perm.Basic
import Mathlib.Order.Basic
import Mathlib.Order.Lattice
import Mathlib.Data.List.MinMax

/-! A priority queue as two lists: an active one, from which elements of the
smallest key leave, and a pending one, which joins it when the active list or
its smallest key runs out. -/

namespace Goap.Foundation

/-- Which of the elements with the smallest key leaves first. -/
inductive Discipline where
  | oldest
  | newest
deriving DecidableEq, Repr

namespace Discipline

variable {α : Type}

/-- Take the oldest or newest element with a property out of a list. -/
def extract (discipline : Discipline) (chosen : α → Bool) (items : List α) : Option (α × List α) :=
  match discipline with
  | oldest => (items.find? chosen).map fun item => (item, items.eraseP chosen)
  | newest => (items.reverse.find? chosen).map fun item =>
      (item, (items.reverse.eraseP chosen).reverse)

/-- Where the extracted element stood. -/
theorem extract_spec {discipline : Discipline} {chosen : α → Bool} {items rest : List α} {item : α}
    (taken : discipline.extract chosen items = some (item, rest)) :
    ∃ before after, items = before ++ item :: after ∧ rest = before ++ after ∧ chosen item = true ∧
      (discipline = oldest → ∀ other ∈ before, chosen other = false) ∧
      (discipline = newest → ∀ other ∈ after, chosen other = false) := by
  cases discipline with
  | oldest =>
    obtain ⟨found, selected, same⟩ := Option.map_eq_some_iff.mp taken
    cases same
    obtain ⟨accepted, before, after, split, rejected⟩ := List.find?_eq_some_iff_append.mp selected
    refine ⟨before, after, split, ?_, accepted, ?_, by simp⟩
    · rw [split, List.eraseP_append_right _ (by simpa using rejected), List.eraseP_cons_of_pos accepted]
    · exact fun _ other member => by simpa using rejected other member
  | newest =>
    obtain ⟨found, selected, same⟩ := Option.map_eq_some_iff.mp taken
    cases same
    obtain ⟨accepted, after, before, split, rejected⟩ := List.find?_eq_some_iff_append.mp selected
    refine ⟨before.reverse, after.reverse, ?_, ?_, accepted, by simp, ?_⟩
    · have reversed := congrArg List.reverse split
      simpa using reversed
    · rw [split, List.eraseP_append_right _ (by simpa using rejected), List.eraseP_cons_of_pos accepted]
      simp
    · exact fun _ other member => by simpa using rejected other (List.mem_reverse.mp member)

theorem extract_isSome (discipline : Discipline) {chosen : α → Bool} {items : List α}
    (present : ∃ item ∈ items, chosen item = true) :
    ∃ item rest, discipline.extract chosen items = some (item, rest) := by
  cases discipline with
  | oldest =>
    obtain ⟨item, selected⟩ := Option.isSome_iff_exists.mp (List.find?_isSome.mpr present)
    exact ⟨item, items.eraseP chosen, by simp [extract, selected]⟩
  | newest =>
    have reversed : ∃ item ∈ items.reverse, chosen item = true := by simpa using present
    obtain ⟨item, selected⟩ := Option.isSome_iff_exists.mp (List.find?_isSome.mpr reversed)
    exact ⟨item, (items.reverse.eraseP chosen).reverse, by simp [extract, selected]⟩

end Discipline

/-- Elements ready to leave and elements waiting to join them, oldest first. -/
structure TwoList (α : Type) where
  active : List α
  pending : List α
deriving DecidableEq, Repr

inductive QueueCall (α : Type) where
  | push (item : α)
  | pushLazy (item : α)
  | pop
  | empty
  | clear
deriving DecidableEq, Repr

inductive QueueReply (α : Type) where
  | done
  | popped (item : Option α)
  | isEmpty (answer : Bool)
deriving DecidableEq, Repr

namespace TwoList

variable {α Key : Type} [LinearOrder Key] (key : α → Key) (discipline : Discipline)

def new : TwoList α := ⟨[], []⟩

def contents (machine : TwoList α) : List α := machine.active ++ machine.pending

def push (machine : TwoList α) (item : α) : TwoList α :=
  { machine with active := machine.active ++ [item] }

def pushLazy (machine : TwoList α) (item : α) : TwoList α :=
  { machine with pending := machine.pending ++ [item] }

/-- Pending elements become active when no active one is left. -/
def settle (machine : TwoList α) : TwoList α :=
  if machine.active.isEmpty then ⟨machine.pending, []⟩ else machine

def empty (machine : TwoList α) : Bool × TwoList α :=
  (machine.settle.active.isEmpty, machine.settle)

/-- Take an active element of the smallest key; when it was the last of its
key, the pending elements become active. -/
def pop (machine : TwoList α) : Option α × TwoList α :=
  let machine := machine.settle
  match (machine.active.map key).min? with
  | none => (none, machine)
  | some least =>
    match discipline.extract (fun item => key item = least) machine.active with
    | none => (none, machine)
    | some (item, rest) =>
      if rest.any fun other => key other = least then (some item, { machine with active := rest })
      else (some item, ⟨rest ++ machine.pending, []⟩)

def call (machine : TwoList α) : QueueCall α → QueueReply α × TwoList α
  | .push item => (.done, machine.push item)
  | .pushLazy item => (.done, machine.pushLazy item)
  | .pop => let (item, machine) := machine.pop key discipline; (.popped item, machine)
  | .empty => let (answer, machine) := machine.empty; (.isEmpty answer, machine)
  | .clear => (.done, new)

def run (machine : TwoList α) : List (QueueCall α) → List (QueueReply α) × TwoList α
  | [] => ([], machine)
  | call :: calls =>
    let (reply, machine) := machine.call key discipline call
    let (replies, machine) := machine.run calls
    (reply :: replies, machine)

variable {key discipline} {machine : TwoList α}

theorem settle_contents (machine : TwoList α) : machine.settle.contents = machine.contents := by
  unfold settle contents
  split
  · rename_i empty
    simp [List.isEmpty_iff.mp empty]
  · rfl

theorem settle_active_nil (empty : machine.settle.active = []) : machine.contents = [] := by
  unfold settle at empty
  split at empty
  · rename_i drained
    simp only at empty
    simp [contents, empty, List.isEmpty_iff.mp drained]
  · rename_i occupied
    exact absurd (List.isEmpty_iff.mpr empty) occupied

theorem settle_active_ne_nil (occupied : machine.contents ≠ []) : machine.settle.active ≠ [] :=
  fun empty => occupied (settle_active_nil empty)

theorem settle_eq_self (occupied : machine.active ≠ []) : machine.settle = machine := by
  rw [settle, if_neg (by simpa using occupied)]

theorem pop_settle (machine : TwoList α) :
    machine.settle.pop key discipline = machine.pop key discipline := by
  by_cases empty : machine.settle.active = []
  · have drained := settle_active_nil empty
    obtain ⟨active, pending⟩ := machine
    obtain ⟨rfl, rfl⟩ := List.append_eq_nil_iff.mp drained
    rfl
  · unfold pop
    rw [settle_eq_self empty]

variable (key discipline)

/-- What popping does: the smallest key is found, an element with it leaves, and
the pending elements join when it was the last one. -/
theorem pop_cases (machine : TwoList α) :
    (machine.contents = [] ∧ machine.pop key discipline = (none, machine.settle)) ∨
    ∃ item before after, machine.settle.active = before ++ item :: after ∧
      (∀ other ∈ machine.settle.active, key item ≤ key other) ∧
      (discipline = .oldest → ∀ other ∈ before, key other ≠ key item) ∧
      (discipline = .newest → ∀ other ∈ after, key other ≠ key item) ∧
      machine.pop key discipline = (some item,
        if (before ++ after).any fun other => key other = key item then
          { machine.settle with active := before ++ after }
        else ⟨before ++ after ++ machine.settle.pending, []⟩) := by
  unfold pop
  cases found : (machine.settle.active.map key).min? with
  | none =>
    left
    have drained : machine.settle.active = [] := by simpa using List.min?_eq_none_iff.mp found
    exact ⟨settle_active_nil drained, by simp only [found]⟩
  | some least =>
    right
    obtain ⟨member, smallest⟩ := List.min?_eq_some_iff.mp found
    obtain ⟨sample, present, keySame⟩ := List.mem_map.mp member
    have present : ∃ item ∈ machine.settle.active, decide (key item = least) = true :=
      ⟨sample, present, by simpa using keySame⟩
    obtain ⟨item, rest, taken⟩ := Discipline.extract_isSome discipline present
    obtain ⟨before, after, split, remaining, accepted, first, last⟩ := Discipline.extract_spec taken
    have own : key item = least := by simpa using accepted
    subst own remaining
    refine ⟨item, before, after, split, ?_, ?_, ?_, ?_⟩
    · exact fun other inside => smallest _ (List.mem_map_of_mem inside)
    · exact fun oldest other inside => by simpa using first oldest other inside
    · exact fun newest other inside => by simpa using last newest other inside
    · simp only [found, taken]
      split <;> rfl

theorem pop_contents (machine : TwoList α) :
    (machine.contents = [] ∧ (machine.pop key discipline).1 = none ∧
      (machine.pop key discipline).2.contents = []) ∨
    ∃ item, (machine.pop key discipline).1 = some item ∧
      machine.contents.Perm (item :: (machine.pop key discipline).2.contents) := by
  rcases pop_cases key discipline machine with
    ⟨drained, popped⟩ | ⟨item, before, after, split, _, _, _, popped⟩
  · left
    exact ⟨drained, by rw [popped], by rw [popped, settle_contents, drained]⟩
  · right
    refine ⟨item, by rw [popped], ?_⟩
    have settled : machine.contents.Perm (item :: (before ++ after ++ machine.settle.pending)) := by
      rw [← settle_contents, contents, split]
      rw [List.append_assoc, List.append_assoc, List.cons_append]
      exact List.perm_middle
    rw [popped]
    split <;> simpa [contents] using settled

/-- The elements pushed by a sequence of calls. -/
def pushed (calls : List (QueueCall α)) : List α :=
  calls.filterMap fun
    | .push item => some item
    | .pushLazy item => some item
    | _ => none

/-- The elements returned by `pop`. -/
def returned (replies : List (QueueReply α)) : List α :=
  replies.filterMap fun
    | .popped item => item
    | _ => none

/-- The elements dropped by `clear`. -/
def discarded (machine : TwoList α) : List (QueueCall α) → List α
  | [] => []
  | .clear :: calls => machine.contents ++ discarded new calls
  | call :: calls => discarded (machine.call key discipline call).2 calls

/-- Nothing is lost and nothing returned twice: what a run pushes is what it
returns, what `clear` drops and what is still queued. -/
theorem run_conserves (calls : List (QueueCall α)) (machine : TwoList α) :
    (machine.contents ++ pushed calls).Perm
      (returned (machine.run key discipline calls).1 ++ machine.discarded key discipline calls ++
        (machine.run key discipline calls).2.contents) := by
  induction calls generalizing machine with
  | nil => simp [pushed, returned, discarded, run]
  | cons call calls ih =>
    cases call with
    | push item =>
      have next := ih (machine.push item)
      have moved : (machine.contents ++ item :: pushed calls).Perm
          ((machine.push item).contents ++ pushed calls) := by
        simp only [contents, push, List.append_assoc, List.singleton_append]
        exact List.Perm.append_left machine.active List.perm_middle
      exact moved.trans (by simpa [returned, discarded, run, TwoList.call] using next)
    | pushLazy item =>
      have next := ih (machine.pushLazy item)
      simpa [pushed, returned, discarded, run, TwoList.call, contents, pushLazy] using next
    | pop =>
      have next := ih (machine.pop key discipline).2
      rcases pop_contents key discipline machine with
        ⟨drained, nothing, after⟩ | ⟨item, popped, left⟩
      · rw [after] at next
        simpa [pushed, returned, discarded, run, TwoList.call, drained, nothing] using next
      · have moved := (left.append_right (pushed calls)).trans (next.cons item)
        simpa [pushed, returned, discarded, run, TwoList.call, popped] using moved
    | empty =>
      have next := ih machine.settle
      rw [settle_contents] at next
      simpa [pushed, returned, discarded, run, TwoList.call, empty] using next
    | clear =>
      have next := ih new
      have kept := next.append_left machine.contents
      rw [List.append_assoc (returned _)] at kept
      have moved := kept.trans (List.perm_append_comm_assoc machine.contents _ _)
      simpa [pushed, returned, discarded, run, TwoList.call, contents, new] using moved

end TwoList

end Goap.Foundation
