import Goap.Foundation.Run
import Mathlib.Logic.Function.Basic

namespace Goap

open Foundation

inductive FactoryType where
  | default
  | singleton
deriving DecidableEq

/-- What a registration is found by: the factory, the interface, the key and the
types of the arguments. -/
structure Place (T Key : Type) where
  factory : Nat
  interface : T
  key : Key
  args : List T
deriving DecidableEq

/-- `WrapperClassTyped`: the class its delegate returns, the type of the registration
and the delegate itself. -/
structure Registration (T Delegate : Type) where
  class_ : T
  fType : FactoryType
  func : Delegate

/-- An object that a delegate has made of some argument values; the serial number
tells it from every other object. -/
structure Made (Delegate Value : Type) where
  delegate : Delegate
  values : List Value
  serial : Nat
deriving DecidableEq

/-- What `factoryCreate<Base, Class, Singleton>::getInstance` is instantiated by:
`Base`, `Class` and the types of the arguments. Each instance has its own static. -/
structure Slot (T : Type) where
  base : T
  class_ : T
  args : List T
deriving DecidableEq

/-- All factories with what is inscribed in them, and the statics of the program. -/
structure Factories (T Key Value Delegate : Type) where
  base : Nat → T
  map : Place T Key → Option (Registration T Delegate)
  statics : Slot T → Option (Made Delegate Value)
  serial : Nat

inductive FactoryCall (T Key Value Delegate : Type) where
  | inscribe (place : Place T Key) (registration : Registration T Delegate)
  | clear (factory : Nat)
  | isInscribed (place : Place T Key)
  | create (place : Place T Key) (values : List Value)

inductive FactoryAnswer (Value Delegate : Type) where
  | done
  | truth (truth : Bool)
  | created (object : Option (Made Delegate Value))

variable {T Key Value Delegate : Type} [DecidableEq T] [DecidableEq Key]

namespace Factories

/-- A program whose factories are empty; `base` gives the `Base` of each of them. -/
def new (base : Nat → T) : Factories T Key Value Delegate := ⟨base, fun _ => none, fun _ => none, 0⟩

def inscribe (this : Factories T Key Value Delegate) (place : Place T Key) (registration : Registration T Delegate) :
    Factories T Key Value Delegate :=
  { this with map := Function.update this.map place (some registration) }

/-- `clear()` of one factory. The statics stay. -/
def clear (this : Factories T Key Value Delegate) (factory : Nat) : Factories T Key Value Delegate :=
  { this with map := fun place => if place.factory = factory then none else this.map place }

def make (this : Factories T Key Value Delegate) (delegate : Delegate) (values : List Value) :
    Made Delegate Value × Factories T Key Value Delegate :=
  (⟨delegate, values, this.serial⟩, { this with serial := this.serial + 1 })

def slot (this : Factories T Key Value Delegate) (place : Place T Key) (registration : Registration T Delegate) :
    Slot T :=
  ⟨this.base place.factory, registration.class_, place.args⟩

/-- `factoryCreate<Base, Class, fType>::getInstance`. A static is initialised by the
first call that reaches it. -/
def getInstance (this : Factories T Key Value Delegate) (place : Place T Key) (registration : Registration T Delegate)
    (values : List Value) : Made Delegate Value × Factories T Key Value Delegate :=
  match registration.fType with
  | .default => this.make registration.func values
  | .singleton =>
    match this.statics (this.slot place registration) with
    | some singleton => (singleton, this)
    | none =>
      let (singleton, made) := this.make registration.func values
      (singleton, { made with statics := Function.update this.statics (this.slot place registration) (some singleton) })

/-- `create`: null when nothing is inscribed at the place. -/
def create (this : Factories T Key Value Delegate) (place : Place T Key) (values : List Value) :
    Option (Made Delegate Value) × Factories T Key Value Delegate :=
  match this.map place with
  | none => (none, this)
  | some registration =>
    let (instance_, this) := this.getInstance place registration values
    (some instance_, this)

def step (this : Factories T Key Value Delegate) :
    FactoryCall T Key Value Delegate → Option (FactoryAnswer Value Delegate × Factories T Key Value Delegate)
  | .inscribe place registration => some (.done, this.inscribe place registration)
  | .clear factory => some (.done, this.clear factory)
  | .isInscribed place => some (.truth (this.map place).isSome, this)
  | .create place values => some (.created (this.create place values).1, (this.create place values).2)

/-- The call creates from a singleton registration at the place. -/
def CreatesSingleton (this : Factories T Key Value Delegate) (call : FactoryCall T Key Value Delegate)
    (place : Place T Key) (registration : Registration T Delegate) : Prop :=
  (∃ values, call = .create place values) ∧ this.map place = some registration ∧ registration.fType = .singleton

/-- A singleton registration gives an object of its own delegate. -/
def GivesOwn (this : Factories T Key Value Delegate) (call : FactoryCall T Key Value Delegate)
    (answer : FactoryAnswer Value Delegate) (_ : Factories T Key Value Delegate) : Prop :=
  ∀ place registration, this.CreatesSingleton call place registration →
    ∃ object, answer = .created (some object) ∧ object.delegate = registration.func

/-- One registration, created from twice, gives one object. -/
def GivesSame (this : Factories T Key Value Delegate) (call : FactoryCall T Key Value Delegate)
    (answer : FactoryAnswer Value Delegate) (later : Factories T Key Value Delegate)
    (call' : FactoryCall T Key Value Delegate) (answer' : FactoryAnswer Value Delegate) : Prop :=
  ∀ place registration, this.CreatesSingleton call place registration →
    later.CreatesSingleton call' place registration → answer' = answer

/-- Two singleton registrations of one base, class and argument list that are created
from have one delegate. -/
def SameDelegate (this : Factories T Key Value Delegate) (call : FactoryCall T Key Value Delegate)
    (_ : FactoryAnswer Value Delegate) (later : Factories T Key Value Delegate)
    (call' : FactoryCall T Key Value Delegate) (_ : FactoryAnswer Value Delegate) : Prop :=
  ∀ place registration place' registration', this.CreatesSingleton call place registration →
    later.CreatesSingleton call' place' registration' →
    this.slot place registration = later.slot place' registration' → registration.func = registration'.func

variable {this this' : Factories T Key Value Delegate} {call : FactoryCall T Key Value Delegate}
  {answer : FactoryAnswer Value Delegate} {place : Place T Key} {registration : Registration T Delegate}

section

omit [DecidableEq Key]

theorem getInstance_default (type : registration.fType = .default) (values : List Value) :
    this.getInstance place registration values = this.make registration.func values := by
  rw [getInstance, type]

theorem getInstance_static {singleton : Made Delegate Value} (type : registration.fType = .singleton)
    (static : this.statics (this.slot place registration) = some singleton) (values : List Value) :
    this.getInstance place registration values = (singleton, this) := by
  rw [getInstance, type]
  simp only [static]

theorem getInstance_empty (type : registration.fType = .singleton)
    (static : this.statics (this.slot place registration) = none) (values : List Value) :
    this.getInstance place registration values = ((this.make registration.func values).1,
      { (this.make registration.func values).2 with
        statics := Function.update this.statics (this.slot place registration)
          (some (this.make registration.func values).1) }) := by
  rw [getInstance, type]
  simp only [static]

theorem getInstance_kept (this : Factories T Key Value Delegate) (place : Place T Key)
    (registration : Registration T Delegate) (values : List Value) :
    (this.getInstance place registration values).2.base = this.base ∧
      (this.getInstance place registration values).2.map = this.map := by
  cases type : registration.fType with
  | default =>
    rw [getInstance_default type]
    exact ⟨rfl, rfl⟩
  | singleton =>
    cases static : this.statics (this.slot place registration) with
    | some singleton =>
      rw [getInstance_static type static]
      exact ⟨rfl, rfl⟩
    | none =>
      rw [getInstance_empty type static]
      exact ⟨rfl, rfl⟩

theorem create_of_map (found : this.map place = some registration) (values : List Value) :
    this.create place values = (some (this.getInstance place registration values).1,
      (this.getInstance place registration values).2) := by
  rw [create, found]

end

/-- What a step may do to a static: leave it, or initialise it by the singleton
registration that is created from. -/
theorem step_statics (ran : this.step call = some (answer, this')) (slot : Slot T) :
    this'.statics slot = this.statics slot ∨
      ∃ place registration object, this.CreatesSingleton call place registration ∧
        slot = this.slot place registration ∧ this.statics slot = none ∧ this'.statics slot = some object ∧
        object.delegate = registration.func := by
  cases call with
  | inscribe place registration | clear factory | isInscribed place =>
    cases ran
    exact .inl rfl
  | create place values =>
    cases ran
    cases found : this.map place with
    | none =>
      left
      rw [create, found]
    | some registration =>
      rw [create_of_map found]
      cases type : registration.fType with
      | default =>
        left
        rw [getInstance_default type]
        rfl
      | singleton =>
        cases static : this.statics (this.slot place registration) with
        | some singleton =>
          left
          rw [getInstance_static type static]
        | none =>
          rw [getInstance_empty type static]
          by_cases own : slot = this.slot place registration
          · right
            subst own
            exact ⟨place, registration, _, ⟨⟨values, rfl⟩, found, type⟩, rfl, static, Function.update_self _ _ _, rfl⟩
          · left
            exact Function.update_of_ne own _ _

/-- What a singleton registration gives: the object of its static, which is that of
its own delegate if the static was empty. -/
theorem step_createsSingleton (creates : this.CreatesSingleton call place registration)
    (ran : this.step call = some (answer, this')) :
    ∃ object, answer = .created (some object) ∧ this'.statics (this.slot place registration) = some object ∧
      (this.statics (this.slot place registration) = some object ∨
        this.statics (this.slot place registration) = none ∧ object.delegate = registration.func) := by
  obtain ⟨⟨values, rfl⟩, found, type⟩ := creates
  cases ran
  rw [create_of_map found]
  cases static : this.statics (this.slot place registration) with
  | some singleton =>
    rw [getInstance_static type static]
    exact ⟨singleton, rfl, static, .inl rfl⟩
  | none =>
    rw [getInstance_empty type static]
    exact ⟨_, rfl, Function.update_self _ _ _, .inr ⟨rfl, rfl⟩⟩

theorem step_statics_some (ran : this.step call = some (answer, this')) {slot : Slot T} {object : Made Delegate Value}
    (static : this.statics slot = some object) : this'.statics slot = some object := by
  rcases step_statics ran slot with same | ⟨_, _, _, _, _, empty, _⟩
  · rw [same, static]
  · rw [static] at empty
    cases empty

theorem step_base (ran : this.step call = some (answer, this')) : this'.base = this.base := by
  cases call with
  | inscribe place registration | clear factory | isInscribed place =>
    cases ran
    rfl
  | create place values =>
    cases ran
    cases found : this.map place with
    | none => rw [create, found]
    | some registration =>
      rw [create_of_map found]
      exact (getInstance_kept this place registration values).1

/-- What a step of creation leaves for all later ones: its object stays in its static. -/
def Settled (this : Factories T Key Value Delegate) (call : FactoryCall T Key Value Delegate)
    (answer : FactoryAnswer Value Delegate) (later : Factories T Key Value Delegate) : Prop :=
  later.base = this.base ∧ ∀ place registration, this.CreatesSingleton call place registration →
    ∃ object, answer = .created (some object) ∧ later.statics (this.slot place registration) = some object

theorem settled_of_step (ran : this.step call = some (answer, this')) : Settled this call answer this' := by
  refine ⟨step_base ran, ?_⟩
  intro place registration creates
  obtain ⟨object, answered, static, _⟩ := step_createsSingleton creates ran
  exact ⟨object, answered, static⟩

theorem Settled.step {later later' : Factories T Key Value Delegate} {call' : FactoryCall T Key Value Delegate}
    {answer' : FactoryAnswer Value Delegate} (settled : Settled this call answer later)
    (ran : later.step call' = some (answer', later')) : Settled this call answer later' := by
  refine ⟨(step_base ran).trans settled.1, ?_⟩
  intro place registration creates
  obtain ⟨object, answered, static⟩ := settled.2 place registration creates
  exact ⟨object, answered, step_statics_some ran static⟩

theorem Settled.same_object {later later' : Factories T Key Value Delegate} {call' : FactoryCall T Key Value Delegate}
    {answer' : FactoryAnswer Value Delegate} {place' : Place T Key} {registration' : Registration T Delegate}
    (settled : Settled this call answer later) (ran : later.step call' = some (answer', later'))
    (creates : this.CreatesSingleton call place registration)
    (creates' : later.CreatesSingleton call' place' registration')
    (reached : this.slot place registration = later.slot place' registration') : answer' = answer := by
  obtain ⟨object, answered, static⟩ := settled.2 place registration creates
  obtain ⟨object', answered', _, before⟩ := step_createsSingleton creates' ran
  rw [← reached, static] at before
  rcases before with same | ⟨empty, _⟩
  · cases same
    rw [answered, answered']
  · cases empty

theorem stepPairs_givesSame (this : Factories T Key Value Delegate) (calls : List (FactoryCall T Key Value Delegate)) :
    StepPairs step GivesSame this calls := by
  apply stepPairs_of_invariant Settled settled_of_step
  intro this call answer later call' answer' later' settled ran
  refine ⟨?_, settled.step ran⟩
  intro place registration creates creates'
  exact settled.same_object ran creates creates' (by rw [slot, slot, settled.1])

/-- Whatever is created through a static later has the delegate of its object. -/
def Fits (slot : Slot T) (object : Made Delegate Value) (later : Factories T Key Value Delegate)
    (call : FactoryCall T Key Value Delegate) (_ : FactoryAnswer Value Delegate)
    (_ : Factories T Key Value Delegate) : Prop :=
  ∀ place registration, later.CreatesSingleton call place registration → later.slot place registration = slot →
    registration.func = object.delegate

theorem sameDelegate_of_givesOwn {calls : List (FactoryCall T Key Value Delegate)}
    (own : AllSteps step GivesOwn this calls) : StepPairs step SameDelegate this calls := by
  induction calls generalizing this with
  | nil => trivial
  | cons call rest ih =>
    intro answer this' ran
    obtain ⟨first, later⟩ := own answer this' ran
    refine ⟨?_, ih later⟩
    apply AllSteps.imp (Settled this call answer) _ (settled_of_step ran) later
    intro middle call' answer' last settled ran' own'
    refine ⟨?_, settled.step ran'⟩
    intro place registration place' registration' creates creates' reached
    obtain ⟨object, answered, made⟩ := first place registration creates
    obtain ⟨object', answered', made'⟩ := own' place' registration' creates'
    have same := settled.same_object ran' creates creates' reached
    rw [answered, answered'] at same
    cases same
    rw [← made, made']

/-- The induction goes over the calls; it is carried by the statics, whose objects fit
all that is created through them later. -/
theorem givesOwn_of_sameDelegate {calls : List (FactoryCall T Key Value Delegate)}
    (fits : ∀ slot object, this.statics slot = some object → AllSteps step (Fits slot object) this calls)
    (same : StepPairs step SameDelegate this calls) : AllSteps step GivesOwn this calls := by
  induction calls generalizing this with
  | nil => trivial
  | cons call rest ih =>
    intro answer this' ran
    obtain ⟨pairs, later⟩ := same answer this' ran
    constructor
    · intro place registration creates
      obtain ⟨object, answered, _, before⟩ := step_createsSingleton creates ran
      refine ⟨object, answered, ?_⟩
      rcases before with static | ⟨_, made⟩
      · exact ((fits _ object static answer this' ran).1 place registration creates rfl).symm
      · exact made
    · refine ih ?_ later
      intro slot object static
      rcases step_statics ran slot with old | ⟨place, registration, made, creates, reached, _, new, delegate⟩
      · exact (fits slot object (old ▸ static) answer this' ran).2
      · rw [static] at new
        cases new
        apply AllSteps.imp (fun _ => True) _ trivial pairs
        intro middle call' answer' last _ _ related
        refine ⟨?_, trivial⟩
        intro place' registration' creates' reached'
        rw [delegate, related place registration place' registration' creates creates' (reached ▸ reached'.symm)]

/-- In a run, every singleton registration gives an object of its own delegate, the
same at every creation, exactly if singleton registrations of one base, class and
argument list that are created from have one delegate. -/
theorem singletons_iff (base : Nat → T) (calls : List (FactoryCall T Key Value Delegate)) :
    AllSteps step GivesOwn (new base) calls ∧ StepPairs step GivesSame (new base) calls ↔
      StepPairs step SameDelegate (new base) calls := by
  constructor
  · rintro ⟨own, _⟩
    exact sameDelegate_of_givesOwn own
  · intro same
    refine ⟨givesOwn_of_sameDelegate ?_ same, stepPairs_givesSame _ calls⟩
    intro slot object static
    cases static

/-- Two keys of one factory whose delegates, 1 and 2, return the same class: the
second one's singleton is made by the first one's delegate. -/
theorem singletons_fails :
    ¬ AllSteps step GivesOwn (new fun _ => 0 : Factories Nat String Nat Nat)
      [.inscribe ⟨0, 1, "first", []⟩ ⟨2, .singleton, 1⟩, .inscribe ⟨0, 1, "second", []⟩ ⟨2, .singleton, 2⟩,
        .create ⟨0, 1, "first", []⟩ [], .create ⟨0, 1, "second", []⟩ []] := by
  intro all
  have created := ((allSteps_cons rfl).mp ((allSteps_cons rfl).mp ((allSteps_cons rfl).mp all).2).2).2
  obtain ⟨object, answered, made⟩ := ((allSteps_cons rfl).mp created).1 ⟨0, 1, "second", []⟩ ⟨2, .singleton, 2⟩
    ⟨⟨[], rfl⟩, rfl, rfl⟩
  have first : FactoryAnswer.created (some ⟨1, [], 0⟩) = FactoryAnswer.created (some object) := answered
  cases first
  exact absurd made (by decide)

end Factories

end Goap
