import Goap.Search.Path

namespace Goap.Path

variable {F : Type} [FloatOps F] {nodes : PathNodes F} {memo : PathMemo F}
  {inside : List (PlanningAction F) → State F → Prop} {near : State F → State F → Prop}

inductive Call (F : Type) [FloatOps F] where
  | executeFromRoot (id : Nat) (initialState : State F)
  | getStates (id : Nat) (initialState : State F) (states : List (State F))

def Call.id : Call F → Nat
  | .executeFromRoot id _ => id
  | .getStates id _ _ => id

def Call.initialState : Call F → State F
  | .executeFromRoot _ initialState => initialState
  | .getStates _ initialState _ => initialState

/-- A call on the tree and its answer as a list of states. -/
def Call.answer (nodes : PathNodes F) (memo : PathMemo F) :
    Call F → Except Exn (List (State F)) × PathMemo F
  | .executeFromRoot id initialState =>
    let (outcome, memo) := Path.executeFromRoot nodes id initialState memo
    (outcome.map ([·]), memo)
  | .getStates id initialState states => Path.getStates nodes id initialState states memo

def Call.plain (nodes : PathNodes F) : Call F → Except Exn (List (State F))
  | .executeFromRoot id initialState => (runActions (actionsTo nodes id) initialState).map ([·])
  | .getStates id initialState _ => traceActions (actionsTo nodes id) initialState

def Call.given : Call F → List (State F)
  | .executeFromRoot _ _ => []
  | .getStates _ _ states => states

/-- The answer is what plain execution gives, in front of the given list. -/
def Answers (near : State F → State F → Prop) (nodes : PathNodes F) (call : Call F)
    (answer : Except Exn (List (State F))) : Prop :=
  Agree (Gathers near call.given) answer (call.plain nodes)

def runCalls (nodes : PathNodes F) : PathMemo F → List (Call F) → List (Except Exn (List (State F)))
  | _, [] => []
  | memo, call :: calls =>
    let (answer, memo) := call.answer nodes memo
    answer :: runCalls nodes memo calls

theorem call_sound (laws : MemoLaws inside near nodes) (sound : MemoSound inside near nodes memo)
    (call : Call F) (start : inside (actionsTo nodes call.id) call.initialState) :
    Answers near nodes call (call.answer nodes memo).1 ∧
      MemoSound inside near nodes (call.answer nodes memo).2 := by
  cases call with
  | getStates id initialState states => exact getStates_sound id laws start sound states
  | executeFromRoot id initialState =>
    obtain ⟨agree, sound'⟩ := executeFromRoot_sound id laws List.suffix_rfl start sound
    refine ⟨?_, sound'⟩
    simp only [Answers, Call.answer, Call.plain, Call.initialState] at agree ⊢
    rcases agree.cases with ⟨state, result, ran, ran', close⟩ | ⟨e, failed, failed'⟩
    · rw [ran, ran']
      exact .ok ⟨[state], rfl, .cons close .nil⟩
    · rw [failed, failed']
      exact .error

theorem runCalls_sound (laws : MemoLaws inside near nodes) (sound : MemoSound inside near nodes memo)
    (calls : List (Call F)) (start : ∀ call ∈ calls, inside (actionsTo nodes call.id) call.initialState) :
    List.Forall₂ (Answers near nodes) calls (runCalls nodes memo calls) := by
  induction calls generalizing memo with
  | nil => exact .nil
  | cons call rest ih =>
    obtain ⟨agree, sound'⟩ := call_sound laws sound call (start call (by simp))
    exact .cons agree (ih sound' fun call member => start call (by simp [member]))

variable {values : F → Prop}

/-- Every state met while executing the actions is made of exact values. -/
def Stays (values : F → Prop) (actions : List (PlanningAction F)) (state : State F) : Prop :=
  ∀ before after, actions = before ++ after → ∀ reached, runActions before state = .ok reached →
    reached.Within values

theorem Stays.start {actions : List (PlanningAction F)} {state : State F} (stays : Stays values actions state) :
    state.Within values :=
  stays [] actions rfl state rfl

theorem Stays.shorter {actions : List (PlanningAction F)} {action : PlanningAction F} {state : State F}
    (stays : Stays values (actions ++ [action]) state) : Stays values actions state := by
  intro before after split reached ran
  exact stays before (after ++ [action]) (by rw [split, List.append_assoc]) reached ran

theorem Stays.tail {actions : List (PlanningAction F)} {action : PlanningAction F} {state next : State F}
    (stays : Stays values (action :: actions) state) (step : action.execute state = .ok next) :
    Stays values actions next := by
  intro before after split reached ran
  apply stays (action :: before) after (by rw [split, List.cons_append]) reached
  rw [runActions, step]
  exact ran

/-- Actions that lead from exact values to exact values only. -/
theorem stays_of_closed {actions : List (PlanningAction F)} {state : State F}
    (closed : ∀ action ∈ actions, ∀ state next : State F, state.Within values →
      action.execute state = .ok next → next.Within values)
    (within : state.Within values) : Stays values actions state := by
  intro before
  induction before generalizing state actions with
  | nil =>
    intro _ _ reached ran
    exact Except.ok.inj ran ▸ within
  | cons action before ih =>
    intro after split reached ran
    subst split
    rw [runActions] at ran
    cases step : action.execute state with
    | error e =>
      rw [step] at ran
      cases ran
    | ok next =>
      rw [step] at ran
      have remaining : ∀ other ∈ before ++ after, ∀ state next : State F, state.Within values →
          other.execute state = .ok next → next.Within values :=
        fun other member => closed other (List.mem_cons_of_mem _ member)
      exact ih remaining (closed action List.mem_cons_self state next within step) after rfl reached ran

theorem Stays.runActions_agree {actions : List (PlanningAction F)}
    (byEntries : ∀ action ∈ actions, action.ExecutesByEntries values) {state other : State F}
    (stays : Stays values actions state) (same : state.SameEntries other) (nonempty : actions ≠ []) :
    Agree State.Alike (runActions actions state) (runActions actions other) := by
  induction actions generalizing state other with
  | nil => exact absurd rfl nonempty
  | cons action rest ih =>
    rw [runActions, runActions]
    rcases ((byEntries action (by simp)).execute stays.start same).cases with
      ⟨next, next', step, step', alike⟩ | ⟨e, failed, failed'⟩
    · rw [step, step']
      cases rest with
      | nil => exact .ok alike
      | cons second rest =>
        exact ih (fun action member => byEntries action (by simp [member])) (stays.tail step) alike.same (by simp)
    · rw [failed, failed']
      exact .error

theorem actionsTo_mem {id : Nat} {action : PlanningAction F} (member : action ∈ actionsTo nodes id) :
    ∃ node ∈ nodes, node.action = action := by
  induction nodes generalizing id with
  | nil => cases member
  | cons node older ih =>
    by_cases own : id = older.length
    · rw [own, actionsTo_own] at member
      rcases List.mem_append.mp member with earlier | last
      · cases origin : node.parent with
        | none => simp [origin, parentActions] at earlier
        | some parent =>
          rw [origin] at earlier
          obtain ⟨ancestor, present, same⟩ := ih earlier
          exact ⟨ancestor, by simp [present], same⟩
      · exact ⟨node, by simp, (List.mem_singleton.mp last).symm⟩
    · rw [actionsTo_older own] at member
      obtain ⟨ancestor, present, same⟩ := ih member
      exact ⟨ancestor, by simp [present], same⟩

theorem memoLaws_of_exact (exact : ExactOn values)
    (byEntries : ∀ node ∈ nodes, node.action.ExecutesByEntries values) :
    MemoLaws (Stays values) State.Alike nodes where
  near_refl := .refl
  near_trans _ _ _ one two := one.trans two
  shorter := Stays.shorter
  step := by
    intro id inBounds actions action state reached result line stays ran alike
    have within : result.Within values := stays actions [action] rfl result ran
    obtain ⟨node, member, own⟩ := actionsTo_mem (show action ∈ actionsTo nodes id by simp [line])
    rw [← own]
    exact (byEntries node member).execute (alike.same.within within) alike.same
  equal := by
    intro id inBounds state other left right equal
    have same := (State.equals_iff_sameEntries exact left.start right.start).mp equal
    refine left.runActions_agree ?_ same (actionsTo_ne_nil inBounds)
    intro action member
    obtain ⟨node, present, own⟩ := actionsTo_mem member
    exact own ▸ byEntries node present

/-- Memoised execution is plain execution: in any sequence of calls on a tree of
new paths, every call gives states with the entries and the cost that executing
the actions to its path from its own initial state gives. -/
theorem runCalls_plain (exact : ExactOn values) (nodes : PathNodes F)
    (byEntries : ∀ node ∈ nodes, node.action.ExecutesByEntries values) (calls : List (Call F))
    (stays : ∀ call ∈ calls, Stays values (actionsTo nodes call.id) call.initialState) :
    List.Forall₂ (Answers State.Alike nodes) calls (runCalls nodes (fun _ => none) calls) :=
  runCalls_sound (memoLaws_of_exact exact byEntries) (fun _ _ _ stored => by cases stored) calls stays

def twoRaises : PathNodes ℚ := [⟨.raise, some 0⟩, ⟨.raise, none⟩]

def alternatingCalls : List (Call ℚ) :=
  [.executeFromRoot 1 .new, .getStates 1 (State.new.put (.scalar 0) (.scalar 1)) [],
    .executeFromRoot 0 .new]

theorem stays_raise {actions : List (PlanningAction ℚ)} (raises : ∀ action ∈ actions, action = .raise)
    {state : State ℚ} (within : state.Within IsBit) : Stays IsBit actions state := by
  apply stays_of_closed _ within
  intro action member state next within step
  rw [raises action member] at step
  cases step
  rw [State.clone_eq]
  exact State.Within.put within isBit_scalar.1 isBit_scalar.2

theorem runCalls_plain_twoRaises :
    List.Forall₂ (Answers State.Alike twoRaises) alternatingCalls
      (runCalls twoRaises (fun _ => none) alternatingCalls) :=
  runCalls_plain exactOn_isBit twoRaises (by simp [twoRaises, PlanningAction.raise_executesByEntries])
    alternatingCalls (by
      have raises : ∀ id, ∀ action ∈ actionsTo twoRaises id, action = PlanningAction.raise := by
        intro id action member
        obtain ⟨node, present, own⟩ := actionsTo_mem member
        rw [← own]
        revert node
        simp [twoRaises]
      intro call member
      apply stays_raise (raises call.id)
      revert call
      simp [alternatingCalls, Call.initialState, State.within_new, isBit_scalar, State.Within.put])

end Goap.Path
