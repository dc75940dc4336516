import Goap.Foundation.Run
import Goap.Search.Path

namespace Goap

open FloatOps Foundation

variable {F : Type} [FloatOps F]

/-- What calling an empty `std::function` throws. -/
def badFunctionCall : Exn := "bad_function_call"

/-- `PlanningAction` between construction and recycling. -/
structure ActionObject (F : Type) [FloatOps F] where
  name : Option String
  validator : Option (State F → Except Exn F)
  executor : Option (State F → Except Exn (State F))

inductive ActionCall (F : Type) [FloatOps F] where
  | name
  | validator
  | executor
  | setName (name : Option String)
  | setValidator (validator : Option (State F → Except Exn F))
  | setExecutor (executor : Option (State F → Except Exn (State F)))
  | canExecute (state : State F)
  | execute (state : State F)
  | toString
  | clear

inductive ActionAnswer (F : Type) [FloatOps F] where
  | done
  | name (name : Option String)
  | validator (validator : Option (State F → Except Exn F))
  | executor (executor : Option (State F → Except Exn (State F)))
  | allowed (outcome : Except Exn Bool)
  | executed (outcome : Except Exn (State F))
  | text (text : String)

namespace ActionObject

/-- `PlanningAction()`. -/
def new : ActionObject F := ⟨none, none, none⟩

def ofAction (action : PlanningAction F) : ActionObject F :=
  ⟨some action.name, some action.validator, some action.executor⟩

def clear (_ : ActionObject F) : ActionObject F := ⟨none, none, none⟩

def canExecute (this : ActionObject F) (state : State F) : Except Exn Bool :=
  match this.validator with
  | none => .error badFunctionCall
  | some validator => (validator state).map fun answer => !eq answer (lit 0)

def execute (this : ActionObject F) (state : State F) : Except Exn (State F) :=
  match this.executor with
  | none => .error badFunctionCall
  | some executor => executor (state.clone.setCost (lit 1))

/-- One call; `none` where a null name is dereferenced. -/
def step (this : ActionObject F) : ActionCall F → Option (ActionAnswer F × ActionObject F)
  | .name => some (.name this.name, this)
  | .validator => some (.validator this.validator, this)
  | .executor => some (.executor this.executor, this)
  | .setName name => some (.done, { this with name })
  | .setValidator validator => some (.done, { this with validator })
  | .setExecutor executor => some (.done, { this with executor })
  | .canExecute state => some (.allowed (this.canExecute state), this)
  | .execute state => some (.executed (this.execute state), this)
  | .toString => this.name.map fun name => (.text name, this)
  | .clear => some (.done, this.clear)

@[simp] theorem canExecute_ofAction (action : PlanningAction F) : (ofAction action).canExecute = action.canExecute :=
  rfl

@[simp] theorem execute_ofAction (action : PlanningAction F) : (ofAction action).execute = action.execute := rfl

end ActionObject

/-- The fields of one `Path`, its parent apart. `memo` holds `_initialState` and `_finalState`. -/
structure PathFields (F : Type) [FloatOps F] where
  action : Option (PlanningAction F)
  cost : F
  memo : Option (State F × State F)

/-- A `Path` with its line of ancestors, the parent first. -/
structure PathObject (F : Type) [FloatOps F] where
  own : PathFields F
  ancestors : List (PathFields F)

inductive PathMethod (F : Type) [FloatOps F] where
  | parent
  | setParent (parent : Option (PathObject F))
  | cost
  | setCost (cost : F)
  | distance
  | action
  | setAction (action : Option (PlanningAction F))
  | addChild (node : Option (PlanningAction F)) (cost : F)
  | executeFromRoot (initialState : State F)
  | getActionCount
  | getActions (actions : List (Option (PlanningAction F)))
  | getStates (initialState : State F) (states : List (State F))
  | clear

inductive PathAnswer (F : Type) [FloatOps F] where
  | done
  | path (path : Option (PathObject F))
  | number (value : F)
  | action (action : Option (PlanningAction F))
  | count (count : Nat)
  | actions (actions : List (Option (PlanningAction F)))
  | state (outcome : Except Exn (State F))
  | states (outcome : Except Exn (List (State F)))

namespace PathObject

/-- `Path()`. -/
def new : PathObject F := ⟨⟨none, lit 1, none⟩, []⟩

def clear (_ : PathObject F) : PathObject F := ⟨⟨none, lit 1, none⟩, []⟩

def line (this : PathObject F) : List (PathFields F) := this.own :: this.ancestors

def ofLine : List (PathFields F) → Option (PathObject F)
  | [] => none
  | own :: ancestors => some ⟨own, ancestors⟩

/-- `distance()`: the cost of the last action. -/
def distance (this : PathObject F) : F :=
  match this.ancestors with
  | [] => this.own.cost
  | parent :: _ => this.own.cost - parent.cost

def addChild (this : PathObject F) (node : Option (PlanningAction F)) (cost : F) : PathObject F :=
  ⟨⟨node, this.own.cost + cost, none⟩, this.line⟩

def remembered (path : PathFields F) (initialState : State F) : Option (State F) :=
  match path.memo with
  | none => none
  | some (initial, final) => if initial.equals initialState then some final else none

/-- `executeFromRoot` over a line of paths, with the memos it leaves; `none` where a
null action is dereferenced. -/
def executeFromRoot (initialState : State F) :
    List (PathFields F) → Option (Except Exn (State F) × List (PathFields F))
  | [] => some (.ok initialState, [])
  | path :: ancestors =>
    match remembered path initialState with
    | some finalState => some (.ok finalState, path :: ancestors)
    | none =>
      match executeFromRoot initialState ancestors with
      | none => none
      | some (.error e, ancestors) => some (.error e, path :: ancestors)
      | some (.ok state, ancestors) =>
        path.action.map fun action =>
          match action.execute state with
          | .error e => (.error e, path :: ancestors)
          | .ok finalState => (.ok finalState, { path with memo := some (initialState, finalState) } :: ancestors)

/-- The loop of `getStates` over the paths that remain. -/
def getStatesLoop (initialState : State F) : Nat → List (PathFields F) → List (State F) →
    Option (Except Exn (List (State F)) × List (PathFields F))
  | 0, line, states => some (.ok states, line)
  | count + 1, line, states =>
    match executeFromRoot initialState line with
    | none => none
    | some (.error e, line) => some (.error e, line)
    | some (.ok state, line) =>
      (getStatesLoop initialState count line.tail (state :: states)).map fun (outcome, ancestors) =>
        (outcome, line.take 1 ++ ancestors)

def withLine (this : PathObject F) (line : List (PathFields F)) : PathObject F := (ofLine line).getD this

/-- One call; `none` where a null action is dereferenced. -/
def step (this : PathObject F) : PathMethod F → Option (PathAnswer F × PathObject F)
  | .parent => some (.path (ofLine this.ancestors), this)
  | .setParent parent => some (.done, { this with ancestors := (parent.map line).getD [] })
  | .cost => some (.number this.own.cost, this)
  | .setCost cost => some (.done, { this with own := { this.own with cost } })
  | .distance => some (.number this.distance, this)
  | .action => some (.action this.own.action, this)
  | .setAction action => some (.done, { this with own := { this.own with action } })
  | .addChild node cost => some (.path (this.addChild node cost), this)
  | .executeFromRoot initialState =>
    (executeFromRoot initialState this.line).map fun (outcome, line) => (.state outcome, this.withLine line)
  | .getActionCount => some (.count this.line.length, this)
  | .getActions actions =>
    some (.actions (this.line.foldl (fun actions path => path.action :: actions) actions), this)
  | .getStates initialState states =>
    (getStatesLoop initialState this.line.length this.line states).map fun (outcome, line) =>
      (.states outcome, this.withLine line)
  | .clear => some (.done, this.clear)

variable {nodes older : PathNodes F} {id : Nat} {path : Nat × PlanningAction F} {memo : PathMemo F}

def lineOf (nodes : PathNodes F) (cost : Nat → F) (memo : PathMemo F) (id : Nat) : List (PathFields F) :=
  (Path.lineage nodes id).map fun path => ⟨some path.2, cost path.1, memo path.1⟩

theorem lt_of_mem_lineage (member : path ∈ Path.lineage nodes id) : path.1 < nodes.length := by
  induction nodes generalizing id with
  | nil => cases member
  | cons node older ih =>
    by_cases own : id = older.length
    · subst own
      rw [Path.lineage_own] at member
      rcases List.mem_cons.mp member with rfl | above
      · exact Nat.lt_succ_self _
      · cases origin : node.parent with
        | none =>
          rw [origin] at above
          cases above
        | some parent =>
          rw [origin] at above
          exact (ih above).trans (Nat.lt_succ_self _)
    · rw [Path.lineage_older own] at member
      exact (ih member).trans (Nat.lt_succ_self _)

theorem lineOf_update (cost : Nat → F) (memo : PathMemo F) (id : Nat) {other : Nat} (outside : older.length ≤ other)
    (entry : Option (State F × State F)) :
    lineOf older cost (Function.update memo other entry) id = lineOf older cost memo id := by
  apply List.map_congr_left
  intro path member
  have bound := lt_of_mem_lineage member
  rw [Function.update_of_ne (by omega)]

theorem lineOf_own (node : PathNode F) (older : PathNodes F) (cost : Nat → F) (memo : PathMemo F) :
    lineOf (node :: older) cost memo older.length =
      ⟨some node.action, cost older.length, memo older.length⟩ :: match node.parent with
        | none => []
        | some parent => lineOf older cost memo parent := by
  rw [lineOf, Path.lineage_own, List.map_cons]
  cases node.parent <;> rfl

theorem lineOf_older {node : PathNode F} (other : id ≠ older.length) (cost : Nat → F) (memo : PathMemo F) :
    lineOf (node :: older) cost memo id = lineOf older cost memo id := by
  rw [lineOf, Path.lineage_older other, lineOf]

/-- Executing a path changes no memo of a path created later. -/
theorem executeFromRoot_memo (nodes : PathNodes F) (memo : PathMemo F) (id : Nat) (initialState : State F)
    {other : Nat} (outside : nodes.length ≤ other) :
    (Path.executeFromRoot nodes id initialState memo).2 other = memo other := by
  induction nodes generalizing id memo with
  | nil => rfl
  | cons node older ih =>
    rw [List.length_cons] at outside
    rw [Path.executeFromRoot]
    by_cases own : id = older.length
    · rw [if_pos own]
      cases Path.remembered memo id initialState with
      | some finalState => rfl
      | none =>
        cases node.parent with
        | none =>
          simp only
          cases node.action.execute initialState with
          | error e => rfl
          | ok finalState => exact Function.update_of_ne (by omega) _ _
        | some parent =>
          have above := ih memo parent (by omega)
          simp only
          generalize Path.executeFromRoot older parent initialState memo = before at above ⊢
          obtain ⟨outcome, memo'⟩ := before
          cases outcome with
          | error e => exact above
          | ok state =>
            simp only
            cases node.action.execute state with
            | error e => exact above
            | ok finalState =>
              rw [← above]
              exact Function.update_of_ne (by omega) _ _
    · rw [if_neg own]
      exact ih memo id (by omega)

/-- Executed as an object with its line, a path of the search tree does what the
search makes it do. -/
theorem executeFromRoot_lineOf (nodes : PathNodes F) (cost : Nat → F) (memo : PathMemo F) (id : Nat)
    (initialState : State F) :
    executeFromRoot initialState (lineOf nodes cost memo id) =
      some ((Path.executeFromRoot nodes id initialState memo).1,
        lineOf nodes cost (Path.executeFromRoot nodes id initialState memo).2 id) := by
  induction nodes generalizing id memo with
  | nil => rfl
  | cons node older ih =>
    by_cases own : id = older.length
    · subst own
      rw [lineOf_own, executeFromRoot, Path.executeFromRoot, if_pos rfl]
      have recalls : remembered ⟨some node.action, cost older.length, memo older.length⟩ initialState =
          Path.remembered memo older.length initialState := rfl
      rw [recalls]
      cases Path.remembered memo older.length initialState with
      | some finalState => simp only [lineOf_own]
      | none =>
        cases origin : node.parent with
        | none =>
          simp only [executeFromRoot, Option.map_some]
          cases node.action.execute initialState with
          | error e => simp [lineOf_own, origin]
          | ok finalState => simp [lineOf_own, origin]
        | some parent =>
          have kept := executeFromRoot_memo older memo parent initialState (Nat.le_refl _)
          simp only [ih memo parent, Option.map_some]
          generalize Path.executeFromRoot older parent initialState memo = before at kept ⊢
          obtain ⟨outcome, memo'⟩ := before
          simp only at kept
          cases outcome with
          | error e => simp [lineOf_own, origin, kept]
          | ok state =>
            simp only
            cases node.action.execute state with
            | error e => simp [lineOf_own, origin, kept]
            | ok finalState => simp [lineOf_own, origin, lineOf_update]
    · rw [lineOf_older own, lineOf_older own, Path.executeFromRoot, if_neg own]
      exact ih memo id

end PathObject

end Goap
