import Goap.Search.PlanningAction

namespace Goap

open FloatOps

variable {F : Type} [FloatOps F]

/-- The fields of a `Path` that never change. The parent is named by its place
in the order of creation; `none` is the null pointer. -/
structure PathNode (F : Type) [FloatOps F] where
  action : PlanningAction F
  parent : Option Nat

/-- All paths created so far, the newest first: the path with number `n` is the
one created after `n` others. -/
abbrev PathNodes (F : Type) [FloatOps F] := List (PathNode F)

/-- The `_initialState` and `_finalState` of every path. -/
abbrev PathMemo (F : Type) [FloatOps F] := Nat → Option (State F × State F)

namespace Path

def remembered (memo : PathMemo F) (id : Nat) (initialState : State F) : Option (State F) :=
  match memo id with
  | none => none
  | some (initial, final) => if initial.equals initialState then some final else none

/-- `executeFromRoot` with the memos before and after. Recursion follows the
order of creation, against which parent pointers go. -/
def executeFromRoot : PathNodes F → Nat → State F → PathMemo F → Except Exn (State F) × PathMemo F
  | [], _, initialState, memo => (.ok initialState, memo)
  | node :: older, id, initialState, memo =>
    if id = older.length then
      match remembered memo id initialState with
      | some finalState => (.ok finalState, memo)
      | none =>
        let before : Except Exn (State F) × PathMemo F := match node.parent with
          | none => (.ok initialState, memo)
          | some parent => executeFromRoot older parent initialState memo
        match before with
        | (.error e, memo) => (.error e, memo)
        | (.ok state, memo) =>
          match node.action.execute state with
          | .error e => (.error e, memo)
          | .ok finalState => (.ok finalState, Function.update memo id (some (initialState, finalState)))
    else executeFromRoot older id initialState memo

/-- The paths from a leaf up to its root, with their actions. -/
def lineage : PathNodes F → Nat → List (Nat × PlanningAction F)
  | [], _ => []
  | node :: older, id =>
    if id = older.length then
      (id, node.action) :: match node.parent with
        | none => []
        | some parent => lineage older parent
    else lineage older id

/-- `getActions`: from the leaf to the root, each action pushed in front. -/
def getActions (nodes : PathNodes F) (id : Nat) (actions : List (PlanningAction F)) :
    List (PlanningAction F) :=
  (lineage nodes id).foldl (fun actions path => path.2 :: actions) actions

/-- The loop of `getStates` over the paths that remain. -/
def getStatesLoop (nodes : PathNodes F) (initialState : State F) :
    List (Nat × PlanningAction F) → List (State F) → PathMemo F → Except Exn (List (State F)) × PathMemo F
  | [], states, memo => (.ok states, memo)
  | path :: rest, states, memo =>
    match executeFromRoot nodes path.1 initialState memo with
    | (.error e, memo) => (.error e, memo)
    | (.ok state, memo) => getStatesLoop nodes initialState rest (state :: states) memo

def getStates (nodes : PathNodes F) (id : Nat) (initialState : State F) (states : List (State F))
    (memo : PathMemo F) : Except Exn (List (State F)) × PathMemo F :=
  getStatesLoop nodes initialState (lineage nodes id) states memo

def actionsTo (nodes : PathNodes F) (id : Nat) : List (PlanningAction F) :=
  (lineage nodes id).reverse.map Prod.snd

theorem getActions_eq (nodes : PathNodes F) (id : Nat) (actions : List (PlanningAction F)) :
    getActions nodes id actions = actionsTo nodes id ++ actions := by
  unfold getActions actionsTo
  generalize lineage nodes id = paths
  induction paths generalizing actions with
  | nil => rfl
  | cons path rest ih => simp [ih]

variable {nodes older : PathNodes F} {node : PathNode F} {id : Nat}

theorem lineage_own (node : PathNode F) (older : PathNodes F) :
    lineage (node :: older) older.length = (older.length, node.action) :: match node.parent with
      | none => []
      | some parent => lineage older parent := by
  rw [lineage, if_pos rfl]

theorem lineage_older (other : id ≠ older.length) : lineage (node :: older) id = lineage older id := by
  rw [lineage, if_neg other]

theorem actionsTo_older (other : id ≠ older.length) :
    actionsTo (node :: older) id = actionsTo older id := by
  rw [actionsTo, lineage_older other, actionsTo]

def parentActions (older : PathNodes F) : Option Nat → List (PlanningAction F)
  | none => []
  | some parent => actionsTo older parent

theorem actionsTo_own (node : PathNode F) (older : PathNodes F) :
    actionsTo (node :: older) older.length = parentActions older node.parent ++ [node.action] := by
  rw [actionsTo, lineage_own]
  cases node.parent <;> simp [parentActions, actionsTo]

theorem actionsTo_ne_nil (inBounds : id < nodes.length) : actionsTo nodes id ≠ [] := by
  induction nodes with
  | nil => exact absurd inBounds (Nat.not_lt_zero _)
  | cons node older ih =>
    by_cases own : id = older.length
    · rw [own, actionsTo_own]
      simp
    · rw [actionsTo_older own]
      rw [List.length_cons] at inBounds
      exact ih (by omega)

/-- What the memos rest on. `inside` holds of the states from which a line of
actions is executed and `near` relates the states that count as one result. -/
structure MemoLaws (inside : List (PlanningAction F) → State F → Prop) (near : State F → State F → Prop)
    (nodes : PathNodes F) : Prop where
  near_refl : ∀ state, near state state
  near_trans : ∀ first second third, near first second → near second third → near first third
  shorter : ∀ {actions action state}, inside (actions ++ [action]) state → inside actions state
  step : ∀ id < nodes.length, ∀ {actions action state reached result},
    actionsTo nodes id = actions ++ [action] → inside (actions ++ [action]) state →
    runActions actions state = .ok result → near reached result →
    Agree near (action.execute reached) (action.execute result)
  equal : ∀ id < nodes.length, ∀ {state other}, inside (actionsTo nodes id) state →
    inside (actionsTo nodes id) other → state.equals other = true →
    Agree near (runActions (actionsTo nodes id) state) (runActions (actionsTo nodes id) other)

variable {inside : List (PlanningAction F) → State F → Prop} {near : State F → State F → Prop}
  {memo : PathMemo F}

/-- Every remembered pair is what executing the path from the remembered
initial state gives. -/
def MemoSound (inside : List (PlanningAction F) → State F → Prop) (near : State F → State F → Prop)
    (nodes : PathNodes F) (memo : PathMemo F) : Prop :=
  ∀ id initial final, memo id = some (initial, final) → id < nodes.length ∧
    inside (actionsTo nodes id) initial ∧
    ∃ result, runActions (actionsTo nodes id) initial = .ok result ∧ near final result

theorem actionsTo_suffix (suffix : older <:+ nodes) (inBounds : id < older.length) :
    actionsTo nodes id = actionsTo older id := by
  induction nodes with
  | nil => rw [List.suffix_nil.mp suffix]
  | cons node nodes ih =>
    rcases List.suffix_cons_iff.mp suffix with same | deeper
    · rw [same]
    · have bound := deeper.length_le
      rw [actionsTo_older (by omega), ih deeper]

theorem remembered_eq_some (found : remembered memo id initialState = some final) :
    ∃ initial, memo id = some (initial, final) ∧ initial.equals initialState = true := by
  unfold remembered at found
  split at found
  · cases found
  · rename_i initial stored present
    split at found
    · rename_i equal
      cases found
      exact ⟨initial, present, equal⟩
    · cases found

theorem MemoSound.update (sound : MemoSound inside near nodes memo) (inBounds : id < nodes.length)
    (start : inside (actionsTo nodes id) initialState)
    (ran : runActions (actionsTo nodes id) initialState = .ok result)
    (close : near final result) :
    MemoSound inside near nodes (Function.update memo id (some (initialState, final))) := by
  intro other initial remembered stored
  by_cases same : other = id
  · subst same
    rw [Function.update_self] at stored
    cases stored
    exact ⟨inBounds, start, result, ran, close⟩
  · rw [Function.update_of_ne same] at stored
    exact sound other initial remembered stored

/-- Executing a path with its memos gives what executing its actions gives, and
keeps the memos sound. -/
theorem executeFromRoot_sound (id : Nat) (laws : MemoLaws inside near nodes) (suffix : older <:+ nodes)
    {initialState : State F} (start : inside (actionsTo older id) initialState)
    (sound : MemoSound inside near nodes memo) :
    Agree near (executeFromRoot older id initialState memo).1
        (runActions (actionsTo older id) initialState) ∧
      MemoSound inside near nodes (executeFromRoot older id initialState memo).2 := by
  induction older generalizing id memo with
  | nil => exact ⟨.ok (laws.near_refl _), sound⟩
  | cons node older ih =>
    unfold executeFromRoot
    by_cases own : id = older.length
    · subst own
      have inBounds : older.length < nodes.length := suffix.length_le.trans_lt' (by simp)
      have line := actionsTo_suffix suffix (Nat.lt_succ_self older.length)
      rw [if_pos rfl]
      cases recalled : remembered memo older.length initialState with
      | some final =>
        obtain ⟨initial, stored, equal⟩ := remembered_eq_some recalled
        obtain ⟨_, began, result, ran, close⟩ := sound _ _ _ stored
        have agree := laws.equal older.length inBounds began (line ▸ start) equal
        rw [ran, line] at agree
        refine ⟨?_, sound⟩
        rcases agree.cases with ⟨_, result', same, ran', close'⟩ | ⟨e, failed, _⟩
        · cases same
          rw [ran']
          exact .ok (laws.near_trans _ _ _ close close')
        · cases failed
      | none =>
        dsimp only
        rw [actionsTo_own] at start
        have whole := runActions_append (parentActions older node.parent) [node.action] initialState
        rw [← actionsTo_own] at whole
        generalize ran : (match node.parent with
          | none => (.ok initialState, memo)
          | some parent => executeFromRoot older parent initialState memo :
            Except Exn (State F) × PathMemo F) = before
        have prior : Agree near before.1 (runActions (parentActions older node.parent) initialState) ∧
            MemoSound inside near nodes before.2 := by
          subst ran
          have shorter := laws.shorter start
          cases origin : node.parent with
          | none => exact ⟨.ok (laws.near_refl _), sound⟩
          | some parent =>
            rw [origin] at shorter
            exact ih parent ((List.suffix_cons node older).trans suffix) shorter sound
        obtain ⟨outcome, memo'⟩ := before
        obtain ⟨agree, sound'⟩ := prior
        rcases agree.cases with ⟨state, result, reached, ran', close⟩ | ⟨e, failed, ran'⟩
        · rw [ran'] at whole
          simp only [runActions_singleton] at whole
          simp only at reached
          subst reached
          have step := laws.step older.length inBounds (line.trans (actionsTo_own node older)) start ran' close
          rcases step.cases with ⟨final, result', executed, executed', close'⟩ | ⟨e, executed, executed'⟩
          · rw [executed'] at whole
            simp only [executed, whole]
            refine ⟨.ok close', sound'.update inBounds ?_ ?_ close'⟩
            · rwa [line, actionsTo_own]
            · rw [line, whole]
          · rw [executed'] at whole
            simp only [executed, whole]
            exact ⟨.error, sound'⟩
        · simp only at failed
          rw [failed, whole, ran']
          exact ⟨.error, sound'⟩
    · rw [if_neg own]
      rw [actionsTo_older own] at start ⊢
      exact ih id ((List.suffix_cons node older).trans suffix) start sound

theorem lt_of_lineage (line : lineage nodes id = path :: rest) : id < nodes.length := by
  induction nodes generalizing id with
  | nil => simp [lineage] at line
  | cons node older ih =>
    by_cases own : id = older.length
    · simp [own]
    · rw [lineage_older own] at line
      exact (ih line).trans (by simp)

/-- From any of its paths on, a line of ancestors is that path's own line. -/
theorem lineage_suffix (suffix : path :: rest <:+ lineage nodes id) :
    lineage nodes path.1 = path :: rest := by
  induction nodes generalizing id with
  | nil => simp [lineage] at suffix
  | cons node older ih =>
    have inner : ∀ id, path :: rest <:+ lineage older id → lineage (node :: older) path.1 = path :: rest := by
      intro id deeper
      have line := ih deeper
      rw [lineage_older (lt_of_lineage line).ne, line]
    by_cases own : id = older.length
    · subst own
      have whole := lineage_own node older
      rw [whole] at suffix
      rcases List.suffix_cons_iff.mp suffix with same | deeper
      · have first := (List.cons.inj same).1
        rw [first, whole, ← same, first]
      · cases parent : node.parent with
        | none => simp [parent] at deeper
        | some id => exact inner id (by simpa [parent] using deeper)
    · rw [lineage_older own] at suffix
      exact inner id suffix

theorem traceActions_error (failed : traceActions actions state = .error e)
    (more : List (PlanningAction F)) : runActions (actions ++ more) state = .error e := by
  induction actions generalizing state with
  | nil => cases failed
  | cons action rest ih =>
    simp only [traceActions, List.cons_append, runActions] at failed ⊢
    cases step : action.execute state with
    | error e' =>
      rw [step] at failed
      exact congrArg _ (Except.error.inj failed)
    | ok next =>
      simp only [step] at failed
      cases tail : traceActions rest next with
      | error e' =>
        rw [tail] at failed
        exact ih (tail.trans (congrArg _ (Except.error.inj failed)))
      | ok states =>
        rw [tail] at failed
        cases failed

/-- What `getStates` gives: the states along the path, in front of the given list. -/
def Gathers (near : State F → State F → Prop) (given states expected : List (State F)) : Prop :=
  ∃ own, states = own ++ given ∧ List.Forall₂ near own expected

theorem getStatesLoop_sound (laws : MemoLaws inside near nodes) {initialState : State F}
    {paths : List (Nat × PlanningAction F)}
    (suffix : paths <:+ lineage nodes id) (start : inside (paths.reverse.map Prod.snd) initialState)
    (sound : MemoSound inside near nodes memo) (states : List (State F)) :
    Agree (Gathers near states) (getStatesLoop nodes initialState paths states memo).1
        (traceActions (paths.reverse.map Prod.snd) initialState) ∧
      MemoSound inside near nodes (getStatesLoop nodes initialState paths states memo).2 := by
  induction paths generalizing memo states with
  | nil => exact ⟨.ok ⟨[], rfl, .nil⟩, sound⟩
  | cons path rest ih =>
    have own : actionsTo nodes path.1 = rest.reverse.map Prod.snd ++ [path.2] := by
      simp [actionsTo, lineage_suffix suffix]
    rw [List.reverse_cons, List.map_append, List.map_singleton] at start ⊢
    obtain ⟨agree, sound'⟩ := executeFromRoot_sound path.1 laws List.suffix_rfl (own ▸ start) sound
    rw [own] at agree
    rw [getStatesLoop]
    generalize executeFromRoot nodes path.1 initialState memo = outcome at agree sound'
    obtain ⟨outcome, memo'⟩ := outcome
    have trace := traceActions_snoc (rest.reverse.map Prod.snd) path.2 initialState
    rw [trace]
    rcases agree.cases with ⟨state, result, ran, ran', close⟩ | ⟨e, failed, failed'⟩
    · simp only at ran
      subst ran
      obtain ⟨gathered, after⟩ := ih ((List.suffix_cons path rest).trans suffix) (laws.shorter start) sound'
        (state :: states)
      refine ⟨?_, after⟩
      dsimp only
      rcases gathered.cases with ⟨all, expected, found, traced, own', split, close'⟩ | ⟨e, failed, failed'⟩
      · rw [found, traced, ran']
        exact .ok ⟨own' ++ [state], by simp [split], List.rel_append close' (.cons close .nil)⟩
      · rw [failed, failed']
        exact .error
    · simp only at failed
      subst failed
      refine ⟨?_, sound'⟩
      dsimp only
      cases traced : traceActions (rest.reverse.map Prod.snd) initialState with
      | ok expected =>
        rw [failed']
        exact .error
      | error e' =>
        have same := traceActions_error traced [path.2]
        rw [failed'] at same
        rw [Except.error.inj same]
        exact .error

theorem getStates_sound (id : Nat) (laws : MemoLaws inside near nodes) {initialState : State F}
    (start : inside (actionsTo nodes id) initialState) (sound : MemoSound inside near nodes memo)
    (states : List (State F)) :
    Agree (Gathers near states) (getStates nodes id initialState states memo).1
        (traceActions (actionsTo nodes id) initialState) ∧
      MemoSound inside near nodes (getStates nodes id initialState states memo).2 :=
  getStatesLoop_sound laws List.suffix_rfl start sound states

end Path

end Goap
