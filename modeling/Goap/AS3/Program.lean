import Goap.AS3.State
import Goap.Foundation.StackLanguage
import Mathlib.Data.Int.Bitwise

namespace Goap.AS3

open Foundation

variable {Other : Type}

inductive UnaryOp where
  | not | neg | inc | dec | bnt
deriving DecidableEq, Repr

inductive BinaryOp where
  | add | sub | mul | div | mod | pow | eq | neq | lt | gt | lte | gte | and | or | xor | bnd | bor | bxr
deriving DecidableEq, Repr

inductive Op where
  | nop | load | store | unset | push | stop
  | unary (operator : UnaryOp)
  | binary (operator : BinaryOp)
deriving DecidableEq, Repr

/-- The constants `OP_`. -/
def Op.text : Op → String
  | nop => "NOP"
  | binary .add => "ADD"
  | binary .sub => "SUB"
  | binary .mul => "MUL"
  | binary .div => "DIV"
  | binary .mod => "MOD"
  | binary .pow => "POW"
  | binary .eq => "EQ"
  | binary .neq => "NEQ"
  | binary .lt => "LT"
  | binary .gt => "GT"
  | binary .lte => "LTE"
  | binary .gte => "GTE"
  | binary .and => "AND"
  | binary .or => "OR"
  | binary .xor => "XOR"
  | unary .not => "NOT"
  | unary .neg => "NEG"
  | unary .inc => "INC"
  | unary .dec => "DEC"
  | binary .bnd => "BND"
  | binary .bor => "BOR"
  | binary .bxr => "BXR"
  | unary .bnt => "BNT"
  | load => "LD"
  | store => "ST"
  | unset => "UNS"
  | push => "PUSH"
  | stop => "END"

def Op.all : List Op :=
  [.nop, .load, .store, .unset, .push, .stop] ++
    ([UnaryOp.not, .neg, .inc, .dec, .bnt].map .unary ++
      [BinaryOp.add, .sub, .mul, .div, .mod, .pow, .eq, .neq, .lt, .gt, .lte, .gte, .and, .or, .xor, .bnd, .bor,
        .bxr].map .binary)

theorem Op.mem_all (op : Op) : op ∈ all := by
  cases op with
  | unary operator => cases operator <;> decide
  | binary operator => cases operator <;> decide
  | _ => decide

/-- The labels of the `switch` of `executeOp`. -/
def Op.parse : Option (Value Other) → Option Op
  | some (.string text) => Op.all.find? fun op => op.text == text
  | _ => none

theorem Op.nodup_text : (all.map text).Nodup := by decide

theorem Op.parse_text (op : Op) : parse (some (.string op.text) : Option (Value Other)) = some op := by
  obtain ⟨found, isFound⟩ : ∃ found, all.find? (fun other => other.text == op.text) = some found :=
    Option.isSome_iff_exists.mp (List.find?_isSome.mpr ⟨op, op.mem_all, by simp⟩)
  have same : found = op := List.inj_on_of_nodup_map nodup_text (List.mem_of_find?_eq_some isFound) op.mem_all
    (by simpa using List.find?_some isFound)
  simpa [parse, same] using isFound

/-- What the operators of the language answer for dynamic values, where null is `none`. -/
class Evaluation (Other : Type) where
  truth : Option (Value Other) → Bool
  plus : Option (Value Other) → Option (Value Other) → Option (Value Other)
  minus : Option (Value Other) → Option (Value Other) → Option (Value Other)
  times : Option (Value Other) → Option (Value Other) → Option (Value Other)
  divided : Option (Value Other) → Option (Value Other) → Option (Value Other)
  modulo : Option (Value Other) → Option (Value Other) → Option (Value Other)
  pow : Option (Value Other) → Option (Value Other) → Option (Value Other)
  looseEq : Option (Value Other) → Option (Value Other) → Bool
  less : Option (Value Other) → Option (Value Other) → Bool
  lessEq : Option (Value Other) → Option (Value Other) → Bool
  bitAnd : Option (Value Other) → Option (Value Other) → Option (Value Other)
  bitOr : Option (Value Other) → Option (Value Other) → Option (Value Other)
  bitXor : Option (Value Other) → Option (Value Other) → Option (Value Other)
  bitNot : Option (Value Other) → Option (Value Other)
  negative : Option (Value Other) → Option (Value Other)
  next : Option (Value Other) → Option (Value Other)
  previous : Option (Value Other) → Option (Value Other)

instance exactIntegers : Evaluation ℤ :=
  let number : Option (Value ℤ) → ℤ
    | some (.int number) => number.toInt
    | some (.other number) => number
    | some (.boolean true) => 1
    | _ => 0
  let operator (operator : ℤ → ℤ → ℤ) (value other : Option (Value ℤ)) : Option (Value ℤ) :=
    some (.other (operator (number value) (number other)))
  { truth := fun value => match value with
      | some (.string text) => text != ""
      | value => number value != 0
    plus := operator (· + ·)
    minus := operator (· - ·)
    times := operator (· * ·)
    divided := operator Int.tdiv
    modulo := operator Int.tmod
    pow := operator fun value other => value ^ other.toNat
    looseEq := fun value other => number value == number other
    less := fun value other => number value < number other
    lessEq := fun value other => number value ≤ number other
    bitAnd := operator Int.land
    bitOr := operator Int.lor
    bitXor := operator Int.xor
    bitNot := fun value => some (.other (Int.not (number value)))
    negative := fun value => some (.other (-number value))
    next := fun value => some (.other (number value + 1))
    previous := fun value => some (.other (number value - 1)) }

open Evaluation

def UnaryOp.apply [Evaluation Other] (value : Option (Value Other)) : UnaryOp → Option (Value Other)
  | not => some (.boolean !truth value)
  | neg => negative value
  | inc => next value
  | dec => previous value
  | bnt => bitNot value

/-- `v1` is popped first. -/
def BinaryOp.apply [Evaluation Other] (v1 v2 : Option (Value Other)) : BinaryOp → Option (Value Other)
  | add => plus v1 v2
  | sub => minus v1 v2
  | mul => times v1 v2
  | div => divided v1 v2
  | mod => modulo v1 v2
  | pow => Evaluation.pow v1 v2
  | eq => some (.boolean (looseEq v1 v2))
  | neq => some (.boolean !looseEq v1 v2)
  | lt => some (.boolean (less v1 v2))
  | gt => some (.boolean (less v2 v1))
  | lte => some (.boolean (lessEq v1 v2))
  | gte => some (.boolean (lessEq v2 v1))
  | and => if truth v1 then v2 else v1
  | or => if truth v1 then v1 else v2
  | xor =>
    -- `(v1 && !v2) || (!v1 && v2)`
    let first := if truth v1 then some (.boolean !truth v2) else v1
    if truth first then first else if !truth v1 then v2 else some (.boolean false)
  | bnd => bitAnd v1 v2
  | bor => bitOr v1 v2
  | bxr => bitXor v1 v2

variable [ToString Other]

/-- The top of `_stack` comes first. -/
structure Program (Other : Type) [ToString Other] where
  _state : Option (State Other)
  _program : List (Option (Value Other))
  _stack : List (Option (Value Other))
  _pc : ℕ

/-- The name that `as String` leaves as a key: null is written as `null`. -/
def keyOf : Option (Value Other) → String
  | some (.string text) => text
  | _ => "null"

namespace Program

def new : Program Other := ⟨none, [], [], 0⟩

def clear (this : Program Other) : Program Other := { this with _state := none, _program := [], _stack := [] }

def o (this : Program Other) (value : Option (Value Other)) : Program Other :=
  { this with _program := this._program ++ [value] }

/-- `_program[_pc++]`, where null is found beyond the end. -/
def getOp (this : Program Other) : Option (Value Other) × Program Other :=
  (this._program[this._pc]?.getD none, { this with _pc := this._pc + 1 })

/-- `_stack.pop()` -/
def pop (this : Program Other) : Option (Value Other) × Program Other :=
  (this._stack.head?.getD none, { this with _stack := this._stack.tail })

/-- `_stack.push(data)` -/
def push (this : Program Other) (data : Option (Value Other)) : Program Other :=
  { this with _stack := data :: this._stack }

variable [Evaluation Other]

/-- Whether to go on, or nothing where it throws, and the object afterwards. -/
def executeOp (this : Program Other) (op : Option (Value Other)) : Option Bool × Program Other :=
  match Op.parse op with
  | some .stop => (some false, this)
  | some .load =>
    let (data, this) := this.getOp
    match this._state with
    | none => (none, this)
    | some state => (some true, this.push (state.at? (keyOf data)))
  | some .store =>
    let (key, this) := this.getOp
    let (value, this) := this.pop
    match this._state with
    | none => (none, this)
    | some state => (some true, { this with _state := some (state.put (keyOf key) value) })
  | some .unset =>
    let (key, this) := this.getOp
    match this._state with
    | none => (none, this)
    | some state => (some true, { this with _state := some (state.remove (keyOf key)) })
  | some .push =>
    let (data, this) := this.getOp
    (some true, this.push data)
  | some (.binary operator) =>
    let (v1, this) := this.pop
    let (v2, this) := this.pop
    (some true, this.push (operator.apply v1 v2))
  | some (.unary operator) =>
    let (value, this) := this.pop
    (some true, this.push (operator.apply value))
  | some .nop => (some true, this)
  | none => (none, this)

/-- The loop of `execute`: whether it ends without an exception. Every iteration reads an
operation, so there are at most as many as the array is long. -/
def executeLoop (nIntructions : ℕ) : ℕ → Program Other → Bool × Program Other
  | 0, this => (true, this)
  | fuel + 1, this =>
    if this._pc < nIntructions then
      let (op, this) := this.getOp
      match this.executeOp op with
      | (some true, this) => executeLoop nIntructions fuel this
      | (some false, this) => (true, this)
      | (none, this) => (false, this)
    else (true, this)

/-- What `execute` returns after its loop. -/
def ret : Bool × Program Other → Option (Value Other) × Program Other
  | (true, this) => this.pop
  | (false, this) => (none, this)

def execute (this : Program Other) : Option (Value Other) × Program Other :=
  let nIntructions := this._program.length
  ret (executeLoop nIntructions nIntructions { this with _pc := 0 })

/-- 27 and 12 times 1 and 2. -/
example : (Program.execute ⟨none, [some (.string "PUSH"), some (.other 27), some (.string "PUSH"), some (.other 12),
    some (.string "PUSH"), some (.other 1), some (.string "PUSH"), some (.other 2), some (.string "ADD"),
    some (.string "MUL"), some (.string "ADD")], [], 0⟩ : Option (Value ℤ) × _).1 = some (.other 63) := by
  decide

def meaning : Meaning (Option (Value Other)) UnaryOp BinaryOp where
  nothing := none
  unary operator value := operator.apply value
  binary operator left right := operator.apply left right

instance namedValues : Store (State Other) (Option (Value Other)) where
  get := State.at?
  put := State.put
  remove := State.remove
  get_put_of_ne state key other value apart := by simp [State.at?_put, apart]
  get_remove_of_ne state key other apart := by simp [State.remove, State.at?_put, apart]

def machine (this : Program Other) : Machine (State Other) (Option (Value Other)) := ⟨this._state, this._stack⟩

def outcome : Option Bool × Program Other → Outcome (State Other) (Option (Value Other))
  | (some true, this) => .running this.machine
  | (some false, this) => .stopped this.machine
  | (none, this) => .failed this.machine

end Program

def Op.takesOperand : Op → Bool
  | load | store | unset | push => true
  | _ => false

/-- The instruction that an operation is with its operand. -/
def Op.instruction (operand : Option (Value Other)) : Option Op → Instruction (Option (Value Other)) UnaryOp BinaryOp
  | some .nop => .nop
  | some .stop => .stop
  | some .load => .load (keyOf operand)
  | some .store => .store (keyOf operand)
  | some .unset => .unset (keyOf operand)
  | some .push => .push operand
  | some (.unary operator) => .unary operator
  | some (.binary operator) => .binary operator
  | none => .invalid

/-- The instructions that stand in an array. -/
def decode : List (Option (Value Other)) → List (Instruction (Option (Value Other)) UnaryOp BinaryOp)
  | [] => []
  | [op] => [Op.instruction none (Op.parse op)]
  | op :: operand :: rest =>
    if (Op.parse op).any Op.takesOperand then Op.instruction operand (Op.parse op) :: decode rest
    else Op.instruction none (Op.parse op) :: decode (operand :: rest)

/-- The operations and operands of an instruction. Null is no operation. -/
def encode : Instruction (Option (Value Other)) UnaryOp BinaryOp → List (Option (Value Other))
  | .nop => [some (.string Op.nop.text)]
  | .stop => [some (.string Op.stop.text)]
  | .invalid => [none]
  | .push value => [some (.string Op.push.text), value]
  | .load name => [some (.string Op.load.text), some (.string name)]
  | .store name => [some (.string Op.store.text), some (.string name)]
  | .unset name => [some (.string Op.unset.text), some (.string name)]
  | .unary operator => [some (.string (Op.unary operator).text)]
  | .binary operator => [some (.string (Op.binary operator).text)]

omit [ToString Other] in
theorem Op.instruction_alone {op : Option Op} (alone : op.any takesOperand = false) (operand : Option (Value Other)) :
    instruction operand op = instruction none op := by
  cases op with
  | none => rfl
  | some op =>
    cases op with
    | load => cases alone
    | store => cases alone
    | unset => cases alone
    | push => cases alone
    | _ => rfl

def operands (op : Option (Value Other)) : ℕ := if (Op.parse op).any Op.takesOperand then 1 else 0

omit [ToString Other] in
theorem decode_cons (op : Option (Value Other)) (rest : List (Option (Value Other))) :
    decode (op :: rest) = Op.instruction (rest.head?.getD none) (Op.parse op) :: decode (rest.drop (operands op)) := by
  by_cases taken : (Op.parse op).any Op.takesOperand = true
  · cases rest with
    | nil => simp [decode]
    | cons operand rest => simp [decode, operands, taken]
  · have alone : (Op.parse op).any Op.takesOperand = false := by simpa using taken
    rw [Op.instruction_alone alone]
    cases rest with
    | nil => simp [decode]
    | cons operand rest => simp [decode, operands, alone]

omit [ToString Other] in
theorem decode_encode (code : List (Instruction (Option (Value Other)) UnaryOp BinaryOp))
    (rest : List (Option (Value Other))) : decode (code.flatMap encode ++ rest) = code ++ decode rest := by
  induction code with
  | nil => rfl
  | cons instruction code ih =>
    cases instruction with
    | invalid => simpa [encode, decode_cons, operands, Op.parse] using ⟨rfl, ih⟩
    | _ => simpa [encode, decode_cons, operands, Op.parse_text, Op.takesOperand, Op.instruction, keyOf] using ih

namespace Program

variable [Evaluation Other]

/-- An operation does what its instruction does, and moves on behind its operand. -/
theorem executeOp_spec (this : Program Other) (op : Option (Value Other)) :
    outcome (this.executeOp op) =
        (Op.instruction (this._program[this._pc]?.getD none) (Op.parse op)).step meaning this.machine ∧
      (this.executeOp op).2._program = this._program ∧ (this.executeOp op).2._pc = this._pc + operands op := by
  obtain ⟨state, program, stack, pc⟩ := this
  cases parsed : Op.parse op with
  | none => simp [executeOp, operands, parsed, outcome, machine, Op.instruction, Instruction.step]
  | some label =>
    cases label with
    | load => cases state <;> simp [executeOp, operands, parsed, outcome, machine, Op.instruction, Instruction.step,
        Op.takesOperand, getOp, push, Store.get]
    | store => cases state <;> simp [executeOp, operands, parsed, outcome, machine, Op.instruction, Instruction.step,
        Op.takesOperand, getOp, pop, Store.put, Instruction.take, meaning]
    | unset => cases state <;> simp [executeOp, operands, parsed, outcome, machine, Op.instruction, Instruction.step,
        Op.takesOperand, getOp, Store.remove]
    | push => simp [executeOp, operands, parsed, outcome, machine, Op.instruction, Instruction.step, Op.takesOperand,
        getOp, push]
    | nop => simp [executeOp, operands, parsed, outcome, machine, Op.instruction, Instruction.step, Op.takesOperand]
    | stop => simp [executeOp, operands, parsed, outcome, machine, Op.instruction, Instruction.step, Op.takesOperand]
    | unary operator => simp [executeOp, operands, parsed, outcome, machine, Op.instruction, Instruction.step,
        Op.takesOperand, pop, push, Instruction.take, meaning]
    | binary operator => simp [executeOp, operands, parsed, outcome, machine, Op.instruction, Instruction.step,
        Op.takesOperand, pop, push, Instruction.take, meaning]

theorem iteration_spec (this : Program Other) (more : this._pc < this._program.length) :
    let executed := this.getOp.2.executeOp this.getOp.1
    Instruction.run meaning (decode (this._program.drop this._pc)) this.machine =
        (outcome executed).andThen (Instruction.run meaning (decode (this._program.drop executed.2._pc))) ∧
      executed.2._program = this._program ∧ this._pc < executed.2._pc := by
  obtain ⟨done, kept, moved⟩ := executeOp_spec this.getOp.2 this.getOp.1
  have read : this.getOp.1 = this._program[this._pc] := by simp [getOp, more]
  have moved : _ = this._pc + 1 + operands this.getOp.1 := moved
  refine ⟨?_, kept, by rw [moved]; omega⟩
  rw [List.drop_eq_getElem_cons more, decode_cons, List.head?_drop, ← read, Instruction.run, moved, List.drop_drop, done]
  rfl

/-- The loop runs the instructions that are left of the array. -/
theorem executeLoop_spec (fuel : ℕ) (this : Program Other) (enough : this._program.length ≤ this._pc + fuel) :
    let result := ret (executeLoop this._program.length fuel this)
    (result.1, result.2.machine) =
        (Instruction.run meaning (decode (this._program.drop this._pc)) this.machine).answer none ∧
      result.2._program = this._program := by
  induction fuel generalizing this with
  | zero =>
    have behind : this._program.drop this._pc = [] := List.drop_eq_nil_of_le enough
    simp [behind, decode, Instruction.run, Outcome.answer, executeLoop, ret, pop, machine]
  | succ fuel ih =>
    by_cases more : this._pc < this._program.length
    · obtain ⟨first, kept, moved⟩ := this.iteration_spec more
      rw [first]
      simp only [executeLoop, more, if_true]
      generalize this.getOp.2.executeOp this.getOp.1 = executed at kept moved ⊢
      obtain ⟨goOn, after⟩ := executed
      cases goOn with
      | none => exact ⟨rfl, kept⟩
      | some goOn =>
        cases goOn with
        | false => exact ⟨rfl, kept⟩
        | true =>
          have kept : after._program = this._program := kept
          have moved : this._pc < after._pc := moved
          have next := ih after (by rw [kept]; omega)
          rw [kept] at next
          exact next
    · have behind : this._program.drop this._pc = [] := List.drop_eq_nil_of_le (not_lt.mp more)
      simp [behind, decode, Instruction.run, Outcome.answer, executeLoop, more, ret, pop, machine]

theorem execute_eq (this : Program Other) :
    (this.execute.1, this.execute.2.machine) =
        (Instruction.run meaning (decode this._program) this.machine).answer none ∧
      this.execute.2._program = this._program :=
  executeLoop_spec this._program.length { this with _pc := 0 } (Nat.le_add_left _ _)

/-- Statements and an expression, compiled and ended by `END`, are executed as they are meant,
whatever stands behind them. The stack is left as it was. -/
theorem execute_compiled (statements : List (Statement (Option (Value Other)) UnaryOp BinaryOp))
    (expression : Expression (Option (Value Other)) UnaryOp BinaryOp) (behind : List (Option (Value Other)))
    (state : State Other) (stack : List (Option (Value Other))) (pc : ℕ) :
    let code := statements.flatMap Statement.compile ++ (expression.compile ++ [.stop])
    let executed := execute ⟨some state, code.flatMap encode ++ behind, stack, pc⟩
    let after := statements.foldl (Statement.effect meaning) state
    executed.1 = expression.value meaning after ∧ executed.2._state = some after ∧ executed.2._stack = stack := by
  intro code executed after
  have ran : Instruction.run meaning (code ++ decode behind) ⟨some state, stack⟩ =
      .stopped ⟨some after, expression.value meaning after :: stack⟩ := by
    rw [List.append_assoc, Instruction.run_append, Statement.run_compile, Outcome.andThen, List.append_assoc,
      Instruction.run_append, Expression.run_compile]
    rfl
  have done : (executed.1, executed.2.machine) =
      (Instruction.run meaning (code ++ decode behind) ⟨some state, stack⟩).answer none := by
    rw [← decode_encode]
    exact (execute_eq _).1
  rw [ran] at done
  exact ⟨congrArg (fun result => result.1) done, congrArg (fun result => result.2.store) done,
    congrArg (fun result => result.2.stack) done⟩

omit [ToString Other] [Evaluation Other] in
/-- A name that a program writes to stands in its array, but for the one that null is written as. -/
theorem mem_of_writes {name : String} (apart : name ≠ "null") (op operand : Option (Value Other))
    (writes : (Op.instruction operand (Op.parse op)).writes = some name) : operand = some (.string name) := by
  have named {operand : Option (Value Other)} (written : some (keyOf operand) = some name) :
      operand = some (.string name) := by
    rcases operand with _ | (text | _ | _ | _)
    case some.string => simpa [keyOf] using written
    all_goals exact absurd (Option.some.inj written).symm apart
  generalize Op.parse op = label at writes
  rcases label with _ | (_ | _ | _ | _ | _ | _ | operator | operator)
  case some.store => exact named writes
  case some.unset => exact named writes
  all_goals cases writes

omit [ToString Other] [Evaluation Other] in
theorem mem_of_decode_writes {name : String} (apart : name ≠ "null") (program : List (Option (Value Other)))
    {instruction : Instruction (Option (Value Other)) UnaryOp BinaryOp} (member : instruction ∈ decode program)
    (writes : instruction.writes = some name) : some (.string name) ∈ program := by
  induction program using decode.induct with
  | case1 => cases member
  | case2 op =>
    obtain rfl := List.mem_singleton.mp member
    cases mem_of_writes apart op none writes
  | case3 op operand rest taken ih =>
    rw [decode, if_pos taken] at member
    rcases List.mem_cons.mp member with rfl | later
    · simp [mem_of_writes apart op operand writes]
    · simp [ih later]
  | case4 op operand rest alone ih =>
    rw [decode, if_neg alone] at member
    rcases List.mem_cons.mp member with rfl | later
    · cases mem_of_writes apart op none writes
    · exact List.mem_cons_of_mem _ (ih later)

/-- A value under a name that does not stand in the array stays, also where an operation throws. -/
theorem execute_keeps (this : Program Other) {name : String} (unnamed : some (.string name) ∉ this._program)
    (apart : name ≠ "null") :
    this.execute.2._state.map (·.at? name) = this._state.map (·.at? name) := by
  have others : ∀ instruction ∈ decode this._program, instruction.writes ≠ some name :=
    fun instruction member writes => unnamed (mem_of_decode_writes apart this._program member writes)
  have kept : (Instruction.run meaning _ _).machine.store.map _ = _ := Instruction.run_keeps others this.machine
  have same : this.execute.2.machine.store = _ := congrArg (fun result => result.2.store) this.execute_eq.1
  rw [Outcome.store_answer] at same
  exact (congrArg (Option.map (·.at? name)) same).trans kept

/-- A text stands where an operation should. -/
def broken : Program ℤ where
  _state := some (State.new.put "A" (some (.other 10)))
  _program := [some (.string "PUSH"), some (.other 8), some (.string "ST"), some (.string "B"), some (.string "")]
  _stack := []
  _pc := 0

theorem execute_keeps_broken :
    broken.execute.2._state.map (·.at? "A") = broken._state.map (·.at? "A") ∧ broken.execute.1 = none :=
  ⟨execute_keeps broken (by decide) (by decide), by decide⟩

end Program

end Goap.AS3
