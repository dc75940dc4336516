import Mathlib.Data.List.Basic

/-! A language of expressions and assignments, and the stack machine that runs its postfix
code. The operand on top of the stack is the left one, so the right one is compiled first. -/

namespace Goap.Foundation

variable {D U B S : Type}

/-- A store of values by name. -/
class Store (S : Type) (D : outParam Type) where
  get : S → String → D
  put : S → String → D → S
  remove : S → String → S
  get_put_of_ne : ∀ store {name other : String} (value : D), other ≠ name → get (put store name value) other = get store other
  get_remove_of_ne : ∀ store {name other : String}, other ≠ name → get (remove store name) other = get store other

/-- What operators mean, and what an empty stack gives. -/
structure Meaning (D U B : Type) where
  nothing : D
  unary : U → D → D
  binary : B → D → D → D

inductive Instruction (D U B : Type) where
  | nop
  | stop
  | invalid
  | push (value : D)
  | load (name : String)
  | store (name : String)
  | unset (name : String)
  | unary (operator : U)
  | binary (operator : B)
deriving DecidableEq, Repr

/-- A store, which may be missing, and a stack, its top first. -/
structure Machine (S D : Type) where
  store : Option S
  stack : List D

inductive Outcome (S D : Type) where
  | running (machine : Machine S D)
  | stopped (machine : Machine S D)
  | failed (machine : Machine S D)

namespace Outcome

def machine : Outcome S D → Machine S D
  | running machine => machine
  | stopped machine => machine
  | failed machine => machine

/-- The value on top in the end, which is taken from the stack, and nothing where the code fails. -/
def answer (nothing : D) : Outcome S D → D × Machine S D
  | failed machine => (nothing, machine)
  | running machine => (machine.stack.head?.getD nothing, { machine with stack := machine.stack.tail })
  | stopped machine => (machine.stack.head?.getD nothing, { machine with stack := machine.stack.tail })

theorem store_answer (nothing : D) (outcome : Outcome S D) :
    (outcome.answer nothing).2.store = outcome.machine.store := by
  cases outcome <;> rfl

def andThen : Outcome S D → (Machine S D → Outcome S D) → Outcome S D
  | running machine, next => next machine
  | ended, _ => ended

end Outcome

namespace Instruction

variable [Store S D] (meaning : Meaning D U B)

/-- What an instruction takes from a stack, and the stack that is left. -/
def take (stack : List D) : D × List D := (stack.head?.getD meaning.nothing, stack.tail)

def step (machine : Machine S D) : Instruction D U B → Outcome S D
  | nop => .running machine
  | stop => .stopped machine
  | invalid => .failed machine
  | push value => .running { machine with stack := value :: machine.stack }
  | load name =>
    match machine.store with
    | none => .failed machine
    | some values => .running { machine with stack := Store.get values name :: machine.stack }
  | store name =>
    let (value, stack) := take meaning machine.stack
    match machine.store with
    | none => .failed { machine with stack }
    | some values => .running ⟨some (Store.put values name value), stack⟩
  | unset name =>
    match machine.store with
    | none => .failed machine
    | some values => .running { machine with store := some (Store.remove values name) }
  | unary operator =>
    let (value, stack) := take meaning machine.stack
    .running { machine with stack := meaning.unary operator value :: stack }
  | binary operator =>
    let (left, stack) := take meaning machine.stack
    let (right, stack) := take meaning stack
    .running { machine with stack := meaning.binary operator left right :: stack }

def run : List (Instruction D U B) → Machine S D → Outcome S D
  | [], machine => .running machine
  | instruction :: code, machine => (step meaning machine instruction).andThen (run code)

variable {meaning}

theorem run_append (first second : List (Instruction D U B)) (machine : Machine S D) :
    run meaning (first ++ second) machine = (run meaning first machine).andThen (run meaning second) := by
  induction first generalizing machine with
  | nil => rfl
  | cons instruction first ih =>
    simp only [List.cons_append, run]
    cases step meaning machine instruction with
    | running machine => exact ih machine
    | stopped machine => rfl
    | failed machine => rfl

theorem run_invariant (holds : Machine S D → Prop) {code : List (Instruction D U B)}
    (kept : ∀ instruction ∈ code, ∀ machine, holds machine → holds (step meaning machine instruction).machine)
    {machine : Machine S D} (began : holds machine) : holds (run meaning code machine).machine := by
  induction code generalizing machine with
  | nil => exact began
  | cons instruction code ih =>
    obtain ⟨first, rest⟩ := List.forall_mem_cons.mp kept
    have next := first machine began
    rw [run]
    generalize step meaning machine instruction = outcome at next
    cases outcome with
    | running machine => exact ih rest next
    | stopped machine => exact next
    | failed machine => exact next

def writes : Instruction D U B → Option String
  | store name => some name
  | unset name => some name
  | _ => none

/-- A value under another name stays, also in a store that the code leaves when it fails. -/
theorem step_keeps {name : String} {instruction : Instruction D U B} (other : instruction.writes ≠ some name)
    (machine : Machine S D) :
    (step meaning machine instruction).machine.store.map (Store.get · name) = machine.store.map (Store.get · name) := by
  cases instruction with
  | load key => cases found : machine.store <;> simp [step, found, Outcome.machine]
  | store key =>
    have apart : name ≠ key := fun same => other (by rw [same, writes])
    cases found : machine.store with
    | none => simp [step, found, Outcome.machine]
    | some values => simp [step, found, Outcome.machine, Store.get_put_of_ne values _ apart]
  | unset key =>
    have apart : name ≠ key := fun same => other (by rw [same, writes])
    cases found : machine.store with
    | none => simp [step, found, Outcome.machine]
    | some values => simp [step, found, Outcome.machine, Store.get_remove_of_ne values apart]
  | nop => rfl
  | stop => rfl
  | invalid => rfl
  | push _ => rfl
  | unary _ => rfl
  | binary _ => rfl

theorem run_keeps {name : String} {code : List (Instruction D U B)}
    (other : ∀ instruction ∈ code, instruction.writes ≠ some name) (machine : Machine S D) :
    (run meaning code machine).machine.store.map (Store.get · name) = machine.store.map (Store.get · name) :=
  run_invariant (fun left => left.store.map (Store.get · name) = machine.store.map (Store.get · name))
    (fun instruction member left kept => (step_keeps (other instruction member) left).trans kept) rfl

end Instruction

inductive Expression (D U B : Type) where
  | literal (value : D)
  | name (key : String)
  | unary (operator : U) (operand : Expression D U B)
  | binary (operator : B) (left right : Expression D U B)

namespace Expression

def value [Store S D] (meaning : Meaning D U B) (store : S) : Expression D U B → D
  | literal value => value
  | name key => Store.get store key
  | unary operator operand => meaning.unary operator (operand.value meaning store)
  | binary operator left right => meaning.binary operator (left.value meaning store) (right.value meaning store)

def compile : Expression D U B → List (Instruction D U B)
  | literal value => [.push value]
  | name key => [.load key]
  | unary operator operand => operand.compile ++ [.unary operator]
  | binary operator left right => right.compile ++ (left.compile ++ [.binary operator])

theorem run_compile [Store S D] (meaning : Meaning D U B) (expression : Expression D U B) (store : S) (stack : List D) :
    Instruction.run meaning expression.compile ⟨some store, stack⟩ =
      .running ⟨some store, expression.value meaning store :: stack⟩ := by
  induction expression generalizing stack with
  | literal value => rfl
  | name key => rfl
  | unary operator operand ih =>
    rw [compile, Instruction.run_append, ih]
    rfl
  | binary operator left right ihLeft ihRight =>
    rw [compile, Instruction.run_append, ihRight, Outcome.andThen, Instruction.run_append, ihLeft]
    rfl

end Expression

inductive Statement (D U B : Type) where
  | assign (name : String) (expression : Expression D U B)
  | unset (name : String)

namespace Statement

variable [Store S D] (meaning : Meaning D U B)

def effect (store : S) : Statement D U B → S
  | assign name expression => Store.put store name (expression.value meaning store)
  | unset name => Store.remove store name

def compile : Statement D U B → List (Instruction D U B)
  | assign name expression => expression.compile ++ [.store name]
  | unset name => [.unset name]

/-- The code of statements does to the store what they do, one after the other, and leaves the
stack as it was. -/
theorem run_compile (statements : List (Statement D U B)) (store : S) (stack : List D) :
    Instruction.run meaning (statements.flatMap compile) ⟨some store, stack⟩ =
      .running ⟨some (statements.foldl (effect meaning) store), stack⟩ := by
  induction statements generalizing store with
  | nil => rfl
  | cons statement rest ih =>
    have first : Instruction.run meaning statement.compile ⟨some store, stack⟩ =
        .running ⟨some (statement.effect meaning store), stack⟩ := by
      cases statement with
      | assign name expression =>
        rw [compile, Instruction.run_append, Expression.run_compile]
        rfl
      | unset name => rfl
    rw [List.flatMap_cons, Instruction.run_append, first, List.foldl_cons]
    exact ih (statement.effect meaning store)

end Statement

end Goap.Foundation
