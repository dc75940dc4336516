import Goap.AS3.PlanningAction

namespace Goap.AS3

open NumberOps

/-- What the language makes of a value where it expects a `Number`, and its `==`. -/
class Coercions (N Other : Type) where
  isNumber : Other → Bool
  toNumber : Option (Value Other) → N
  looseEq : Option (Value Other) → Option (Value Other) → Bool
  /-- Only null is equal to null. -/
  looseEq_null : ∀ value, looseEq value none = value.isNone
  looseEq_comm : ∀ value other, looseEq value other = looseEq other value
  looseEq_int : ∀ number other : Int32, looseEq (some (.int number)) (some (.int other)) = (number == other)

instance : Coercions ℚ ℕ where
  isNumber _ := true
  toNumber
    | some (.int number) => number.toInt
    | some (.other number) => number
    | some (.boolean true) => 1
    | _ => 0
  looseEq
    | none, value => value.isNone
    | some _, none => false
    | some value, some other => value == other
  looseEq_null value := by cases value <;> rfl
  looseEq_comm value other := by
    cases value with
    | none => cases other <;> rfl
    | some value =>
      cases other with
      | none => rfl
      | some other => exact Bool.beq_comm
  looseEq_int number other := by
    show decide _ = decide _
    simp

open Coercions

variable {N Other : Type} [ToString Other]

namespace NumericStateComparer

/-- The counters of the loop in `distance`. -/
structure Tally (N : Type) where
  percent : N
  sameKeyCount : Nat
  s2Count : Nat

section

variable [NumberOps N] [Coercions N Other]

/-- `value is Number || value is int`. -/
def isNumeric (N : Type) [Coercions N Other] : Value Other → Bool
  | .int _ => true
  | .other value => isNumber N value
  | _ => false

/-- What two values that may differ add to `percent`. -/
def difference (value1 : Value Other) (value2 : Option (Value Other)) (percent : N) : N :=
  if isNumeric N value1 then
    let s1k := toNumber (some value1)
    let s2k := toNumber value2
    if eq s1k s2k then percent else percent + NumberOps.abs (s1k - s2k) / NumberOps.max s1k s2k
  else if looseEq N (some value1) value2 then percent else percent + number 1

def distanceStep (s1 s2 : IWriteState N Other) (tally : Tally N) (key : String) : Tally N :=
  match s1.toState.at? key with
  | none => { tally with s2Count := tally.s2Count + 1 }
  | some value1 =>
    ⟨difference value1 (s2.toState.at? key) tally.percent, tally.sameKeyCount + 1, tally.s2Count + 1⟩

def distance (s1 s2 : IWriteState N Other) : N :=
  let tally := s2.toState.map.keys.foldl (distanceStep s1 s2) ⟨number 0, 0, 0⟩
  let countDifferent := number (tally.s2Count - tally.sameKeyCount)
  (tally.percent + countDifferent) / number tally.s2Count

def enough (s1 s2 : IWriteState N Other) : Bool :=
  s2.toState.map.keys.all fun key => looseEq N (s1.toState.at? key) (s2.toState.at? key)

end

end NumericStateComparer

namespace Object

omit [ToString Other] in
theorem mem_put {object : Object Other} {name key : String} {value : Option (Value Other)} :
    key ∈ (object.put name value).keys ↔ key = name ∨ key ∈ object.keys :=
  AList.mem_insert object

omit [ToString Other] in
/-- A loop over keys that puts some of them adds these. -/
theorem mem_foldl_put {step : Object Other → String → Object Other} (added : String → Prop)
    (stepped : ∀ object key name, name ∈ (step object key).keys ↔ name = key ∧ added key ∨ name ∈ object.keys)
    (keys : List String) (object : Object Other) (name : String) :
    name ∈ (keys.foldl step object).keys ↔ name ∈ keys ∧ added name ∨ name ∈ object.keys := by
  induction keys generalizing object with
  | nil => simp
  | cons key keys ih =>
    rw [List.foldl_cons, ih, stepped, List.mem_cons]
    constructor
    · intro member
      rcases member with ⟨later, taken⟩ | ⟨rfl, taken⟩ | old
      · exact .inl ⟨.inr later, taken⟩
      · exact .inl ⟨.inl rfl, taken⟩
      · exact .inr old
    · intro member
      rcases member with ⟨rfl | later, taken⟩ | old
      · exact .inr (.inl ⟨rfl, taken⟩)
      · exact .inl ⟨later, taken⟩
      · exact .inr (.inr old)

omit [ToString Other] in
/-- `setMap` keeps the keys that were there and adds those that are not null in the other. -/
theorem mem_setMap {object m : Object Other} {key : String} :
    key ∈ ((object.nullMissing m).copyValues m).keys ↔ key ∈ object.keys ∨ (m.at? key).isSome := by
  have nulled : ∀ name, name ∈ (object.nullMissing m).keys ↔ name ∈ object.keys := by
    intro name
    refine (mem_foldl_put (fun key => (m.at? key).isNone) ?_ object.keys object name).trans ?_
    · intro object key name
      split <;> simp_all [mem_put]
    · exact ⟨fun member => member.elim And.left (·), .inr⟩
  refine (mem_foldl_put (fun key => (m.at? key).isSome) ?_ m.keys _ key).trans ?_
  · intro object key name
    cases found : m.at? key with
    | none => simp
    | some val => simp [mem_put]
  · rw [nulled]
    constructor
    · intro member
      exact member.elim (fun new => .inr new.2) .inl
    · intro member
      refine member.elim .inr fun present => .inl ⟨?_, present⟩
      by_contra absent
      rw [at?_of_notMem absent] at present
      cases present

end Object

namespace NumericStateComparer

variable [NumberOps N] [Coercions N Other]

/-- Against a copy of the goal, a state is enough if it has what is not null in the goal, and
null under every other key that is left of the state from the pool. What is null in the goal is
asked for only under these. -/
theorem enough_clone_iff (state goal : IWriteState N Other) (pool : ObjectPool (IWriteState N Other)) :
    enough state (goal.clone pool).1 = true ↔
      (∀ key, (goal.toState.at? key).isSome → looseEq N (state.toState.at? key) (goal.toState.at? key) = true) ∧
      ∀ key ∈ (pool.getNew IWriteState.new).1.toState.map.keys, goal.toState.at? key = none →
        state.toState.at? key = none := by
  have keys : ∀ key, key ∈ (goal.clone pool).1.toState.map.keys ↔
      key ∈ (pool.getNew IWriteState.new).1.toState.map.keys ∨ (goal.toState.at? key).isSome :=
    fun key => Object.mem_setMap
  have values : (goal.clone pool).1.toState.at? = goal.toState.at? := congrArg View.at? (goal.view_clone pool)
  simp only [enough, List.all_eq_true, keys, values]
  constructor
  · intro all
    refine ⟨fun key present => all key (.inr present), ?_⟩
    intro key stale null
    have equal := all key (.inl stale)
    rw [null, looseEq_null] at equal
    exact Option.isNone_iff_eq_none.mp equal
  · intro both key member
    obtain ⟨wanted, stale⟩ := both
    cases found : goal.toState.at? key with
    | some value =>
      rw [← found]
      exact wanted key (by simp [found])
    | none =>
      rw [looseEq_null, Option.isNone_iff_eq_none]
      refine stale key (member.resolve_right ?_) found
      simp [found]

end NumericStateComparer

end Goap.AS3
