import Goap.Search.ExecuteActions

namespace Goap

open FloatOps

variable {F : Type} [FloatOps F]

/-- The `State` objects of a program by address. -/
structure StateStore (F : Type) [FloatOps F] where
  objects : Nat → State F
  fresh : Nat

namespace StateStore

def set (store : StateStore F) (address : Nat) (state : State F) : StateStore F :=
  { store with objects := Function.update store.objects address state }

/-- `cost(float)`. -/
def setCost (store : StateStore F) (address : Nat) (cost : F) : StateStore F :=
  store.set address ((store.objects address).setCost cost)

/-- `clone()`: a new object. -/
def clone (store : StateStore F) (address : Nat) : Nat × StateStore F :=
  (store.fresh, { store.set store.fresh (store.objects address).clone with fresh := store.fresh + 1 })

/-- `PlanningAction::execute`. The executor edits the new object; when it throws,
nobody gets a pointer to it. -/
def execute (store : StateStore F) (action : PlanningAction F) (state : Nat) : Except Exn Nat × StateStore F :=
  let (newState, store) := store.clone state
  let store := store.setCost newState (lit 1)
  match action.executor (store.objects newState) with
  | .error e => (.error e, store)
  | .ok edited => (.ok newState, store.set newState edited)

/-- The loop of `executeActions`, with the object that `reachedByPath` points to. -/
def executeLoop : List (PlanningAction F) → StateStore F → Nat → F → StateStore F × Nat × Option F
  | [], store, reachedByPath, accCost => (store, reachedByPath, some accCost)
  | action :: rest, store, reachedByPath, accCost =>
    match action.canExecute (store.objects reachedByPath) with
    | .error _ => (store, reachedByPath, none)
    | .ok false => (store, reachedByPath, some accCost)
    | .ok true =>
      match store.execute action reachedByPath with
      | (.error _, store) => (store, reachedByPath, none)
      | (.ok nextState, store) => executeLoop rest store nextState (accCost + (store.objects nextState).cost)

def executeActions (store : StateStore F) (actions : List (PlanningAction F)) (initialState : Nat) :
    StateStore F × Nat :=
  let (initial, store) := store.clone initialState
  let store := store.setCost initial (store.objects initialState).cost
  match executeLoop actions store initial (store.objects initial).cost with
  | (store, reachedByPath, none) => (store, reachedByPath)
  | (store, reachedByPath, some accCost) => (store.setCost reachedByPath accCost, reachedByPath)

variable {store store' : StateStore F} {base address : Nat}

/-- The objects below the base are as they were, and still there. -/
structure Keeps (base : Nat) (store store' : StateStore F) : Prop where
  objects : ∀ address < base, store'.objects address = store.objects address
  fresh : base ≤ store'.fresh

theorem Keeps.trans {store'' : StateStore F} (first : Keeps base store store') (second : Keeps base store' store'') :
    Keeps base store store'' :=
  ⟨fun address old => (second.objects address old).trans (first.objects address old), second.fresh⟩

@[simp] theorem set_objects (store : StateStore F) (address : Nat) (state : State F) :
    (store.set address state).objects address = state := Function.update_self ..

@[simp] theorem setCost_objects (store : StateStore F) (address : Nat) (cost : F) :
    (store.setCost address cost).objects address = (store.objects address).setCost cost := set_objects ..

theorem keeps_set (inside : base ≤ store.fresh) (above : base ≤ address) (state : State F) :
    Keeps base store (store.set address state) := by
  refine ⟨?_, inside⟩
  intro other old
  exact Function.update_of_ne (Nat.ne_of_lt (old.trans_le above)) _ _

theorem Keeps.mono {base' : Nat} (keeps : Keeps base store store') (lower : base' ≤ base) : Keeps base' store store' :=
  ⟨fun address old => keeps.objects address (old.trans_le lower), lower.trans keeps.fresh⟩

theorem clone_spec (store : StateStore F) (state : Nat) :
    Keeps store.fresh store (store.clone state).2 ∧ (store.clone state).1 = store.fresh ∧
      (store.clone state).2.fresh = store.fresh + 1 ∧
      (store.clone state).2.objects store.fresh = store.objects state := by
  have filled := keeps_set (Nat.le_refl store.fresh) (Nat.le_refl store.fresh) (store.objects state).clone
  refine ⟨⟨filled.objects, Nat.le_succ _⟩, rfl, rfl, ?_⟩
  exact (set_objects ..).trans (State.clone_eq _)

/-- Executing an action among objects is executing it by value, in a new object. -/
theorem execute_spec (store : StateStore F) (action : PlanningAction F) (state : Nat) :
    Keeps store.fresh store (store.execute action state).2 ∧
      match action.execute (store.objects state) with
      | .error e => (store.execute action state).1 = .error e
      | .ok next => ∃ newState, (store.execute action state).1 = .ok newState ∧ store.fresh ≤ newState ∧
          newState < (store.execute action state).2.fresh ∧
          (store.execute action state).2.objects newState = next := by
  obtain ⟨copied, new, grown, same⟩ := clone_spec store state
  have priced := copied.trans (keeps_set copied.fresh (Nat.le_refl store.fresh)
    (((store.clone state).2.objects store.fresh).setCost (lit 1)))
  have given : ((store.clone state).2.setCost store.fresh (lit 1)).objects store.fresh =
      (store.objects state).clone.setCost (lit 1) := by
    rw [setCost_objects, same, State.clone_eq]
  unfold execute PlanningAction.execute
  simp only [new, given]
  cases action.executor ((store.objects state).clone.setCost (lit 1)) with
  | error e => exact ⟨priced, rfl⟩
  | ok edited =>
    refine ⟨priced.trans (keeps_set priced.fresh (Nat.le_refl store.fresh) edited), store.fresh, rfl,
      Nat.le_refl _, ?_, set_objects ..⟩
    show store.fresh < (store.clone state).2.fresh
    omega

/-- The loop among objects is the loop by value, and writes to new objects only. -/
theorem executeLoop_spec (actions : List (PlanningAction F)) (above : base ≤ address) (held : address < store.fresh)
    (accCost : F) : ∃ store' reachedByPath, base ≤ reachedByPath ∧ Keeps base store store' ∧
      executeLoop actions store address accCost =
        (store', reachedByPath, (Goap.executeLoop actions (store.objects address) accCost).2) ∧
      store'.objects reachedByPath = (Goap.executeLoop actions (store.objects address) accCost).1 := by
  have inside : base ≤ store.fresh := above.trans held.le
  induction actions generalizing store address accCost with
  | nil => exact ⟨store, address, above, ⟨fun _ _ => rfl, inside⟩, rfl, rfl⟩
  | cons action rest ih =>
    have stays : Keeps base store store := ⟨fun _ _ => rfl, inside⟩
    unfold executeLoop Goap.executeLoop
    cases action.canExecute (store.objects address) with
    | error e => exact ⟨store, address, above, stays, rfl, rfl⟩
    | ok able =>
      cases able with
      | false => exact ⟨store, address, above, stays, rfl, rfl⟩
      | true =>
        obtain ⟨moved, outcome⟩ := execute_spec store action address
        generalize store.execute action address = ran at moved outcome
        obtain ⟨result, after⟩ := ran
        cases executed : action.execute (store.objects address) with
        | error e =>
          rw [executed] at outcome
          cases outcome
          exact ⟨after, address, above, moved.mono inside, rfl, moved.objects address held⟩
        | ok next =>
          rw [executed] at outcome
          obtain ⟨newState, made, beyond, fresh, holds⟩ := outcome
          cases made
          have lower : base ≤ newState := inside.trans beyond
          obtain ⟨store', reachedByPath, fine, later, same, final⟩ :=
            ih lower fresh (accCost + (after.objects newState).cost) (lower.trans fresh.le)
          simp only at holds
          rw [holds] at same final
          refine ⟨store', reachedByPath, fine, (moved.mono inside).trans later, ?_, final⟩
          simp only [holds]
          exact same

/-- Among objects `executeActions` answers with a new object and leaves the old ones
as they were. -/
theorem executeActions_spec (store : StateStore F) (actions : List (PlanningAction F)) (initialState : Nat) :
    store.fresh ≤ (store.executeActions actions initialState).2 ∧
      Keeps store.fresh store (store.executeActions actions initialState).1 ∧
      (store.executeActions actions initialState).1.objects (store.executeActions actions initialState).2 =
        Goap.executeActions actions (store.objects initialState) := by
  obtain ⟨copied, new, grown, same⟩ := clone_spec store initialState
  have original : (store.clone initialState).2.objects initialState = store.objects initialState := by
    by_cases own : initialState = store.fresh
    · subst own
      exact same
    · exact Function.update_of_ne own _ _
  generalize cloned : store.clone initialState = copy at copied new grown same original
  obtain ⟨initial, copy⟩ := copy
  simp only at copied new grown same original
  subst new
  have priced := copied.trans (keeps_set copied.fresh (Nat.le_refl _)
    ((copy.objects store.fresh).setCost (store.objects initialState).cost))
  have held : store.fresh < (copy.setCost store.fresh (store.objects initialState).cost).fresh := by
    show store.fresh < copy.fresh
    omega
  obtain ⟨last, reachedByPath, fine, moved, ran, final⟩ := executeLoop_spec actions (Nat.le_refl _) held
    (store.objects initialState).cost
  rw [setCost_objects, same] at ran final
  unfold executeActions Goap.executeActions
  simp only [cloned, original, State.clone_eq, setCost_objects, same, State.cost_setCost, ran]
  generalize Goap.executeLoop actions ((store.objects initialState).setCost _) _ = outcome at final ⊢
  obtain ⟨state, accCost⟩ := outcome
  have kept := priced.trans moved
  cases accCost with
  | none => exact ⟨fine, kept, final⟩
  | some accCost =>
    refine ⟨fine, kept.trans (keeps_set kept.fresh fine _), ?_⟩
    rw [setCost_objects, final]

end StateStore

/-- The longest part of a list that can be executed, with the states it goes through. -/
structure LongestPrefix (state : State F) (actions done rest : List (PlanningAction F)) (states : List (State F)) :
    Prop where
  split : actions = done ++ rest
  trace : Executes state done states
  halts : Halts (reached state states) rest

/-- The next action throws, in its validator or in its executor. -/
def Throws (state : State F) : List (PlanningAction F) → Prop
  | [] => False
  | action :: _ => (∃ e, action.canExecute state = .error e) ∨
      action.canExecute state = .ok true ∧ ∃ e, action.execute state = .error e

variable {state : State F} {actions rest : List (PlanningAction F)}

theorem executeLoop_of_throws (throws : Throws state rest) (accCost : F) :
    executeLoop rest state accCost = (state, none) := by
  cases rest with
  | nil => exact throws.elim
  | cons action rest =>
    unfold executeLoop
    rcases throws with ⟨e, failed⟩ | ⟨allowed, e, failed⟩
    · rw [failed]
    · rw [allowed, failed]

theorem executeLoop_of_not_throws (halts : Halts state rest) (returns : ¬ Throws state rest) (accCost : F) :
    executeLoop rest state accCost = (state, some accCost) := by
  cases rest with
  | nil => rfl
  | cons action rest =>
    unfold executeLoop
    cases allowed : action.canExecute state with
    | error e => exact absurd (.inl ⟨e, allowed⟩) returns
    | ok answer =>
      cases answer with
      | false => rfl
      | true =>
        cases executed : action.execute state with
        | error e => exact absurd (.inr ⟨allowed, e, executed⟩) returns
        | ok next => exact absurd executed (halts next allowed)

/-- The longest part is the only one. -/
theorem LongestPrefix.unique {done done' rest' : List (PlanningAction F)} {states states' : List (State F)}
    (one : LongestPrefix state actions done rest states) (other : LongestPrefix state actions done' rest' states') :
    rest = rest' ∧ states = states' := by
  obtain ⟨split, trace, halts⟩ := one
  obtain ⟨split', trace', halts'⟩ := other
  induction trace generalizing actions done' states' with
  | nil =>
    cases trace' with
    | nil => exact ⟨split.symm.trans split', rfl⟩
    | cons allowed step _ =>
      rw [List.nil_append] at split
      rw [← split, split'] at halts
      exact absurd step (halts _ allowed)
  | cons allowed step _ ih =>
    cases trace' with
    | nil =>
      rw [List.nil_append] at split'
      rw [← split', split] at halts'
      exact absurd step (halts' _ allowed)
    | cons allowed' step' later =>
      obtain ⟨rfl, tails⟩ := List.cons.inj (split.symm.trans split')
      cases step.symm.trans step'
      rw [reached_cons] at halts halts'
      obtain ⟨sameRest, sameStates⟩ := ih rfl halts tails later halts'
      exact ⟨sameRest, congrArg _ sameStates⟩

/-- What `executeActions` returns: the state reached, with the accumulated cost
unless the list has ended by an exception. -/
theorem executeActions_cases {initialState : State F} {done : List (PlanningAction F)} {states : List (State F)}
    (longest : LongestPrefix initialState actions done rest states) :
    (Throws (reached initialState states) rest ∧ executeActions actions initialState = reached initialState states) ∨
      (¬ Throws (reached initialState states) rest ∧ executeActions actions initialState =
        (reached initialState states).setCost (accumulate initialState.cost states)) := by
  have own : initialState.clone.setCost initialState.cost = initialState := by rw [State.clone_eq]; rfl
  simp only [executeActions, own, longest.split, executeLoop_append longest.trace rest]
  by_cases throws : Throws (reached initialState states) rest
  · exact .inl ⟨throws, by rw [executeLoop_of_throws throws]⟩
  · exact .inr ⟨throws, by rw [executeLoop_of_not_throws longest.halts throws]⟩

/-- The contract of `executeActions`: the result is the state after the longest part
of the list that can be executed, its cost the initial one and those of all states
reached, and no object from before is changed. -/
structure MeetsContract (store : StateStore F) (actions : List (PlanningAction F)) (initialState : Nat) : Prop where
  result : ∃ done rest states, LongestPrefix (store.objects initialState) actions done rest states ∧
    (store.executeActions actions initialState).1.objects (store.executeActions actions initialState).2 =
      (reached (store.objects initialState) states).setCost (accumulate (store.objects initialState).cost states)
  unchanged : ∀ address < store.fresh,
    (store.executeActions actions initialState).1.objects address = store.objects address

theorem accumulate_snoc (accCost : F) (states : List (State F)) (next : State F) :
    accumulate accCost (states ++ [next]) = accumulate accCost states + next.cost :=
  List.foldl_concat ..

/-- `executeActions` meets its contract exactly if, where an action throws, what has been
accumulated before the last state reached adds nothing to the cost of that state. -/
theorem meetsContract_iff (store : StateStore F) (actions : List (PlanningAction F)) (initialState : Nat) :
    MeetsContract store actions initialState ↔ ∀ done rest earlier last,
      LongestPrefix (store.objects initialState) actions done rest (earlier ++ [last]) → Throws last rest →
      accumulate (store.objects initialState).cost earlier + last.cost = last.cost := by
  obtain ⟨_, keeps, same⟩ := store.executeActions_spec actions initialState
  constructor
  · intro contract done rest earlier last longest throws
    obtain ⟨done', rest', states', longest', result⟩ := contract.result
    obtain ⟨rfl, rfl⟩ := longest.unique longest'
    rw [same, reached_snoc, accumulate_snoc] at result
    rcases executeActions_cases longest with ⟨_, returned⟩ | ⟨returns, _⟩
    · rw [reached_snoc] at returned
      exact congrArg State.cost (result.symm.trans returned)
    · rw [reached_snoc] at returns
      exact absurd throws returns
  · intro costs
    obtain ⟨done, rest, states, split, trace, halts⟩ := exists_prefix (store.objects initialState) actions
    have longest : LongestPrefix (store.objects initialState) actions done rest states := ⟨split, trace, halts⟩
    refine ⟨⟨done, rest, states, longest, ?_⟩, keeps.objects⟩
    rw [same]
    rcases executeActions_cases longest with ⟨throws, returned⟩ | ⟨_, returned⟩
    · rw [returned]
      rcases List.eq_nil_or_concat' states with rfl | ⟨earlier, last, rfl⟩
      · rfl
      · rw [reached_snoc] at throws ⊢
        rw [accumulate_snoc, costs done rest earlier last longest throws]
        rfl
    · exact returned

def breaksDown : PlanningAction ℚ where
  name := "breaksDown"
  validator _ := .ok 1
  executor _ := .error "breaks down"

/-- A program with one `State` object, a new state at address 0. -/
def oneState : StateStore ℚ := ⟨fun _ => .new, 1⟩

/-- After the exception the result costs 2, not 1 + 2. -/
theorem meetsContract_fails : ¬ MeetsContract oneState [.raise, breaksDown] 0 := by
  intro contract
  obtain ⟨done, rest, states, longest, result⟩ := contract.result
  have raised : LongestPrefix State.new [.raise, breaksDown] [.raise] [breaksDown]
      [(State.new.put (.scalar 0) (.scalar 1)).setCost 2] := by
    refine ⟨rfl, .cons rfl ?_ .nil, ?_⟩
    · rfl
    · intro next _ executed
      cases executed
  obtain ⟨_, sameStates⟩ := raised.unique longest
  rw [(oneState.executeActions_spec _ 0).2.2, ← sameStates] at result
  have paid : (executeActions [.raise, breaksDown] State.new).cost = (2 : ℚ) := by decide +kernel
  have owed : accumulate State.new.cost [(State.new.put (.scalar 0) (.scalar 1)).setCost (2 : ℚ)] = 3 := by
    decide +kernel
  have cost := congrArg State.cost result
  rw [State.cost_setCost] at cost
  exact absurd (paid.symm.trans (cost.trans owed)) (by decide +kernel)

end Goap
