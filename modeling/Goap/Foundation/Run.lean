import Mathlib.Tactic.TypeStar

namespace Goap.Foundation

variable {S C A : Type*}

theorem bind_eq_ok {ε α β : Type} {first : Except ε α} {next : α → Except ε β} {result : β} :
    (first >>= next) = .ok result ↔ ∃ middle, first = .ok middle ∧ next middle = .ok result := by
  constructor
  · intro done
    cases first with
    | error e => cases done
    | ok middle => exact ⟨middle, rfl, done⟩
  · rintro ⟨middle, rfl, done⟩
    exact done

/-- Every step of a run is as described: the state before it, the call, its answer and the state it leaves. -/
def AllSteps (step : S → C → Option (A × S)) (good : S → C → A → S → Prop) : S → List C → Prop
  | _, [] => True
  | state, call :: rest => ∀ answer state', step state call = some (answer, state') →
      good state call answer state' ∧ AllSteps step good state' rest

/-- Any two steps of a run, the first of them earlier, are related. -/
def StepPairs (step : S → C → Option (A × S)) (related : S → C → A → S → C → A → Prop) : S → List C → Prop
  | _, [] => True
  | state, call :: rest => ∀ answer state', step state call = some (answer, state') →
      AllSteps step (fun later call' answer' _ => related state call answer later call' answer') state' rest ∧
        StepPairs step related state' rest

/-- What a run answers, up to its first undefined call. -/
def answers (step : S → C → Option (A × S)) : S → List C → List (Option A)
  | _, [] => []
  | state, call :: rest =>
    match step state call with
    | none => [none]
    | some (answer, state') => some answer :: answers step state' rest

section

variable {step : S → C → Option (A × S)} {good ok : S → C → A → S → Prop} {invariant : S → Prop}

theorem allSteps_cons {state state' : S} {call : C} {answer : A} {rest : List C}
    (ran : step state call = some (answer, state')) :
    AllSteps step good state (call :: rest) ↔ good state call answer state' ∧ AllSteps step good state' rest := by
  constructor
  · intro all
    exact all answer state' ran
  · intro both answer₁ state₁ ran₁
    obtain ⟨rfl, rfl⟩ : answer = answer₁ ∧ state' = state₁ := by simpa [ran] using ran₁
    exact both

/-- Two descriptions of a step that agree wherever an invariant holds agree on
whole runs, if steps of the second kind keep the invariant. -/
theorem allSteps_iff (invariant : S → Prop)
    (agree : ∀ {state call answer state'}, invariant state → step state call = some (answer, state') →
      (good state call answer state' ↔ ok state call answer state'))
    (keep : ∀ {state call answer state'}, invariant state → step state call = some (answer, state') →
      ok state call answer state' → invariant state')
    {state : S} (start : invariant state) (calls : List C) :
    AllSteps step good state calls ↔ AllSteps step ok state calls := by
  induction calls generalizing state with
  | nil => exact Iff.rfl
  | cons call rest ih =>
    constructor
    · intro all answer state' ran
      obtain ⟨first, later⟩ := all answer state' ran
      have allowed := (agree start ran).mp first
      exact ⟨allowed, (ih (keep start ran allowed)).mp later⟩
    · intro all answer state' ran
      obtain ⟨allowed, later⟩ := all answer state' ran
      exact ⟨(agree start ran).mpr allowed, (ih (keep start ran allowed)).mpr later⟩

theorem AllSteps.imp (invariant : S → Prop)
    (each : ∀ {state call answer state'}, invariant state → step state call = some (answer, state') →
      ok state call answer state' → good state call answer state' ∧ invariant state')
    {state : S} (start : invariant state) {calls : List C} (all : AllSteps step ok state calls) :
    AllSteps step good state calls := by
  induction calls generalizing state with
  | nil => trivial
  | cons call rest ih =>
    intro answer state' ran
    obtain ⟨described, later⟩ := all answer state' ran
    obtain ⟨first, next⟩ := each start ran described
    exact ⟨first, ih next later⟩

theorem allSteps_true {state : S} {calls : List C} : AllSteps step (fun _ _ _ _ => True) state calls := by
  induction calls generalizing state with
  | nil => trivial
  | cons call rest ih => exact fun _ _ _ => ⟨trivial, ih⟩

theorem allSteps_of_invariant (invariant : S → Prop)
    (each : ∀ {state call answer state'}, invariant state → step state call = some (answer, state') →
      good state call answer state' ∧ invariant state')
    {state : S} (start : invariant state) (calls : List C) : AllSteps step good state calls := by
  apply AllSteps.imp invariant _ start allSteps_true
  intro state call answer state' holds ran _
  exact each holds ran

/-- A relation that holds between a step and every later one, by an invariant that the
step establishes. -/
theorem stepPairs_of_invariant {related : S → C → A → S → C → A → Prop} (after : S → C → A → S → Prop)
    (establish : ∀ {state call answer state'}, step state call = some (answer, state') →
      after state call answer state')
    (each : ∀ {state call answer middle call' answer' last}, after state call answer middle →
      step middle call' = some (answer', last) →
      related state call answer middle call' answer' ∧ after state call answer last)
    (state : S) (calls : List C) : StepPairs step related state calls := by
  induction calls generalizing state with
  | nil => trivial
  | cons call rest ih =>
    intro answer state' ran
    exact ⟨allSteps_of_invariant (after state call answer) each (establish ran) rest, ih state'⟩

end

theorem answers_eq_of_step {step : S → C → Option (A × S)} (alike : S → S → Prop)
    (each : ∀ state other call, alike state other → step state call = none ∧ step other call = none ∨
      ∃ answer state' other', step state call = some (answer, state') ∧ step other call = some (answer, other') ∧
        alike state' other')
    {state other : S} (start : alike state other) (calls : List C) : answers step state calls = answers step other calls := by
  induction calls generalizing state other with
  | nil => rfl
  | cons call rest ih =>
    unfold answers
    rcases each state other call start with ⟨undefined, undefined'⟩ | ⟨answer, state', other', ran, ran', next⟩
    · rw [undefined, undefined']
    · rw [ran, ran']
      exact congrArg (some answer :: ·) (ih next)

/-- Every call of a run is allowed in the state where it is made, also the one that is undefined. -/
def AllCalls (step : S → C → Option (A × S)) (allowed : S → C → Prop) : S → List C → Prop
  | _, [] => True
  | state, call :: rest => allowed state call ∧
      match step state call with
      | none => True
      | some (_, state') => AllCalls step allowed state' rest

instance AllCalls.decidable {step : S → C → Option (A × S)} {allowed : S → C → Prop} [∀ state call, Decidable (allowed state call)] :
    ∀ (calls : List C) (state : S), Decidable (AllCalls step allowed state calls)
  | [], _ => .isTrue trivial
  | call :: rest, state =>
    have _later : Decidable (match step state call with
        | none => True
        | some (_, state') => AllCalls step allowed state' rest) :=
      match step state call with
      | none => .isTrue trivial
      | some (_, state') => AllCalls.decidable rest state'
    instDecidableAnd

/-- A run is followed by another machine, which takes its calls as they read in the states reached: both
define a call or neither does, and the second machine describes what the first answers. -/
def RunsTogether {T D : Type*} (step : S → C → Option (A × S)) (reading : S → T → C → D) (other : T → D → Option T)
    (describes : T → D → A → Prop) : S → T → List C → Prop
  | _, _, [] => True
  | state, model, call :: rest =>
    match step state call, other model (reading state model call) with
    | none, none => True
    | some (answer, state'), some model' =>
      describes model (reading state model call) answer ∧ RunsTogether step reading other describes state' model' rest
    | _, _ => False

/-- What each allowed call does to states that correspond, a run does. -/
theorem runsTogether_of_step {T D : Type*} {step : S → C → Option (A × S)} {reading : S → T → C → D}
    {other : T → D → Option T} {describes : T → D → A → Prop} (corresponds : S → T → Prop) {allowed : S → C → Prop}
    (each : ∀ state model call, corresponds state model → allowed state call →
      step state call = none ∧ other model (reading state model call) = none ∨
        ∃ answer state' model', step state call = some (answer, state') ∧
          other model (reading state model call) = some model' ∧
          describes model (reading state model call) answer ∧ corresponds state' model')
    {state : S} {model : T} (start : corresponds state model) {calls : List C} (all : AllCalls step allowed state calls) :
    RunsTogether step reading other describes state model calls := by
  induction calls generalizing state model with
  | nil => trivial
  | cons call rest ih =>
    obtain ⟨own, later⟩ := all
    unfold RunsTogether
    rcases each state model call start own with ⟨undefined, undefined'⟩ | ⟨answer, state', model', ran, ran', described, next⟩
    · rw [undefined, undefined']
      trivial
    · rw [ran] at later
      rw [ran, ran']
      exact ⟨described, ih next later⟩

end Goap.Foundation
