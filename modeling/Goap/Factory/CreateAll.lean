import Goap.Factory.Singleton

/-! `createAll`: an object for every key of an interface, all from one list of arguments.
A delegate that is called may leave the arguments changed for the next. -/

namespace Goap

open Foundation

/-- How a type in an argument list takes its argument. -/
inductive Passing where
  | byValue
  | reference
  | constReference
deriving DecidableEq

/-- What the delegates and the types of a program do. -/
structure Program (T Value Delegate Object : Type) where
  /-- The object of a delegate; `none` is a null pointer. -/
  build : Delegate → List Value → Option Object
  /-- What a delegate leaves in its parameters. -/
  leave : Delegate → List Value → List Value
  passing : T → Passing
  /-- What is left of a value that was moved from. -/
  moved : Value → Value
  /-- The class has `intrusive_ptr_add_ref` and `intrusive_ptr_release`. -/
  intrusive : T → Bool

/-- The keys of `_map[interface]`, those with other argument lists included. -/
structure InterfaceKeys {T Key Value Delegate : Type} (this : Factories T Key Value Delegate) (factory : Nat)
    (interface : T) where
  keys : List Key
  nodup : keys.Nodup
  complete : ∀ key args, (this.map ⟨factory, interface, key, args⟩).isSome = true → key ∈ keys

variable {T Key Value Delegate Object : Type}

namespace Program

variable (program : Program T Value Delegate Object)

/-- An argument after a call: `std::forward` moves from one that is passed by value. -/
def argumentAfter (type : T) (value left : Value) : Value :=
  match program.passing type with
  | .byValue => program.moved value
  | .reference => left
  | .constReference => value

/-- The arguments after a call that has left `lefts` in its parameters. -/
def argumentsAfter : List T → List Value → List Value → List Value
  | type :: args, value :: values, lefts =>
    program.argumentAfter type value (lefts.headD value) :: argumentsAfter args values lefts.tail
  | _, values, _ => values

variable {program} {args : List T}

theorem argumentsAfter_of_no_reference (read : ∀ type ∈ args, program.passing type ≠ .reference)
    (values lefts : List Value) : program.argumentsAfter args values lefts = program.argumentsAfter args values [] := by
  induction args generalizing values lefts with
  | nil => rfl
  | cons type args ih =>
    cases values with
    | nil => rfl
    | cons value values =>
      have head := read type List.mem_cons_self
      have rest := ih (fun type member => read type (List.mem_cons_of_mem _ member)) values lefts.tail
      simp only [argumentsAfter, rest, List.tail_nil]
      cases passed : program.passing type with
      | reference => exact absurd passed head
      | byValue | constReference => simp only [argumentAfter, passed]

theorem argumentsAfter_of_constReference (read : ∀ type ∈ args, program.passing type = .constReference)
    (values lefts : List Value) : program.argumentsAfter args values lefts = values := by
  induction args generalizing values lefts with
  | nil => rfl
  | cons type args ih =>
    cases values with
    | nil => rfl
    | cons value values =>
      have head := read type List.mem_cons_self
      have rest := ih (fun type member => read type (List.mem_cons_of_mem _ member)) values lefts.tail
      simp only [argumentsAfter, argumentAfter, head, rest]

variable (program)

/-- Whether `create` dereferences the null pointer of a delegate: the deleter of a
`Default` object releases it, `copySingleton` adds a reference to it. -/
def derefsNull (place : Place T Key) (registration : Registration T Delegate) : Bool :=
  match registration.fType with
  | .default => program.intrusive registration.class_
  | .singleton => program.intrusive place.interface

end Program

namespace Factories

variable [DecidableEq T]

/-- Whether `getInstance` calls the delegate. -/
def callsDelegate (this : Factories T Key Value Delegate) (place : Place T Key) (registration : Registration T Delegate) :
    Bool :=
  match registration.fType with
  | .default => true
  | .singleton => (this.statics (this.slot place registration)).isNone

/-- The arguments after `getInstance`. -/
def argumentsLeft (program : Program T Value Delegate Object) (this : Factories T Key Value Delegate)
    (place : Place T Key) (registration : Registration T Delegate) (values : List Value) : List Value :=
  if this.callsDelegate place registration then
    program.argumentsAfter place.args values (program.leave registration.func values)
  else values

/-- The object that `getInstance` answers. -/
def objectOf (program : Program T Value Delegate Object) (this : Factories T Key Value Delegate) (place : Place T Key)
    (registration : Registration T Delegate) (values : List Value) : Option Object :=
  program.build (this.getInstance place registration values).1.delegate
    (this.getInstance place registration values).1.values

/-- `create` with the arguments that it leaves; `none` where it dereferences a null pointer. -/
def createFrom (program : Program T Value Delegate Object) (this : Factories T Key Value Delegate) (place : Place T Key)
    (values : List Value) : Option (Option Object × List Value × Factories T Key Value Delegate) :=
  match this.map place with
  | none => some (none, values, this)
  | some registration =>
    let object := this.objectOf program place registration values
    if object.isNone && program.derefsNull place registration then none
    else some (object, this.argumentsLeft program place registration values,
      (this.getInstance place registration values).2)

/-- `if (ptr) ret[key] = ptr`, in front of what the later keys get. -/
def record (key : Key) : Option Object → List (Key × Object) → List (Key × Object)
  | none, rest => rest
  | some ptr, rest => (key, ptr) :: rest

/-- The loop of `createAll` over the keys that remain. -/
def createAll (program : Program T Value Delegate Object) (factory : Nat) (interface : T) (args : List T) :
    List Key → List Value → Factories T Key Value Delegate → Option (List (Key × Object) × Factories T Key Value Delegate)
  | [], _, this => some ([], this)
  | key :: keys, values, this => do
    let (ptr, values, this) ← this.createFrom program ⟨factory, interface, key, args⟩ values
    let (ret, this) ← createAll program factory interface args keys values this
    return (record key ptr ret, this)

/-- The key is inscribed, and its delegate builds the object from the given arguments. -/
def Builds (program : Program T Value Delegate Object) (this : Factories T Key Value Delegate) (place : Place T Key)
    (given : List Value) (object : Object) : Prop :=
  ∃ registration, this.map place = some registration ∧ program.build registration.func given = some object

/-- Between the given arguments and what is left of them the registration makes no
difference. -/
structure SameFor (program : Program T Value Delegate Object) (this : Factories T Key Value Delegate)
    (place : Place T Key) (registration : Registration T Delegate) (given left : List Value) : Prop where
  /-- A delegate that is called builds the same object from both. -/
  called : this.callsDelegate place registration = true →
    program.build registration.func left = program.build registration.func given
  /-- A singleton that is there already is what the delegate would build. -/
  singleton : ∀ singleton, registration.fType = .singleton →
    this.statics (this.slot place registration) = some singleton →
    program.build singleton.delegate singleton.values = program.build registration.func given
  /-- A null pointer is not dereferenced. -/
  null : program.build registration.func given = none → program.derefsNull place registration = false

/-- What the calls for the keys leave of the arguments, from `left` on, makes no
difference to the calls after them. -/
def Undisturbed (program : Program T Value Delegate Object) (factory : Nat) (interface : T) (args : List T)
    (given : List Value) : List Key → List Value → Factories T Key Value Delegate → Prop
  | [], _, _ => True
  | key :: keys, left, this =>
    match this.map ⟨factory, interface, key, args⟩ with
    | none => Undisturbed program factory interface args given keys left this
    | some registration =>
      this.SameFor program ⟨factory, interface, key, args⟩ registration given left ∧
        Undisturbed program factory interface args given keys
          (this.argumentsLeft program ⟨factory, interface, key, args⟩ registration left)
          (this.getInstance ⟨factory, interface, key, args⟩ registration left).2

variable {program : Program T Value Delegate Object} {this : Factories T Key Value Delegate} {factory : Nat}
  {interface : T} {args : List T} {place : Place T Key} {registration : Registration T Delegate}

theorem objectOf_called {values : List Value} (called : this.callsDelegate place registration = true) :
    this.objectOf program place registration values = program.build registration.func values := by
  rw [objectOf]
  cases type : registration.fType with
  | default =>
    rw [getInstance_default type]
    rfl
  | singleton =>
    simp only [callsDelegate, type, Option.isNone_iff_eq_none] at called
    rw [getInstance_empty type called]
    rfl

theorem sameFor_iff {given left : List Value} : this.SameFor program place registration given left ↔
    this.objectOf program place registration left = program.build registration.func given ∧
      (program.build registration.func given = none → program.derefsNull place registration = false) := by
  constructor
  · rintro ⟨same, singleton, null⟩
    refine ⟨?_, null⟩
    by_cases called : this.callsDelegate place registration = true
    · rw [objectOf_called called, same called]
    · cases type : registration.fType with
      | default => simp [callsDelegate, type] at called
      | singleton =>
        simp only [callsDelegate, type, Option.isNone_iff_eq_none] at called
        obtain ⟨object, static⟩ := Option.ne_none_iff_exists'.mp called
        rw [objectOf, getInstance_static type static, singleton object type static]
  · rintro ⟨built, null⟩
    refine ⟨?_, ?_, null⟩
    · intro called
      rw [← objectOf_called called, built]
    · intro object type static
      rw [← built, objectOf, getInstance_static type static]

/-- `createFrom` is `create`, with an object for what it has made. -/
theorem createFrom_eq_create {object : Option Object} {values left : List Value}
    {later : Factories T Key Value Delegate} (ran : this.createFrom program place values = some (object, left, later)) :
    later = (this.create place values).2 ∧
      object = (this.create place values).1.bind fun made => program.build made.delegate made.values := by
  unfold createFrom at ran
  cases found : this.map place with
  | none =>
    rw [found] at ran
    cases ran
    rw [create, found]
    exact ⟨rfl, rfl⟩
  | some registration =>
    simp only [found] at ran
    split at ran
    · cases ran
    · cases ran
      rw [create_of_map found]
      exact ⟨rfl, rfl⟩

theorem mem_record {key key' : Key} {ptr : Option Object} {rest : List (Key × Object)} {object : Object} :
    (key', object) ∈ record key ptr rest ↔ key' = key ∧ ptr = some object ∨ (key', object) ∈ rest := by
  cases ptr with
  | none => simp [record]
  | some ptr => simp [record, eq_comm]

theorem createAll_cons {key : Key} {keys : List Key} {values : List Value}
    {this later : Factories T Key Value Delegate} {ret : List (Key × Object)} :
    createAll program factory interface args (key :: keys) values this = some (ret, later) ↔
      ∃ ptr left middle rest, this.createFrom program ⟨factory, interface, key, args⟩ values = some (ptr, left, middle) ∧
        createAll program factory interface args keys left middle = some (rest, later) ∧ record key ptr rest = ret := by
  simp [createAll, Option.bind_eq_some_iff]

theorem keys_createAll {keys : List Key} {values : List Value} {this later : Factories T Key Value Delegate}
    {ret : List (Key × Object)} (ran : createAll program factory interface args keys values this = some (ret, later)) :
    (ret.map Prod.fst).Sublist keys := by
  induction keys generalizing values this ret with
  | nil =>
    cases ran
    exact .slnil
  | cons key keys ih =>
    obtain ⟨ptr, left, middle, rest, _, created, rfl⟩ := createAll_cons.mp ran
    cases ptr with
    | none => exact (ih created).cons key
    | some ptr => exact (ih created).cons_cons key

/-- `createAll` ends, and its map has exactly the keys whose delegates build an object
from the given arguments, each with that object. -/
def CreatesEach (program : Program T Value Delegate Object) (factory : Nat) (interface : T) (args : List T)
    (given : List Value) (keys : List Key) (values : List Value) (this : Factories T Key Value Delegate) : Prop :=
  ∃ ret later, createAll program factory interface args keys values this = some (ret, later) ∧
    ∀ key ∈ keys, ∀ object, (key, object) ∈ ret ↔ this.Builds program ⟨factory, interface, key, args⟩ given object

section

variable {key : Key} {keys : List Key} {given values left : List Value} {middle : Factories T Key Value Delegate}
  {ptr : Option Object}

theorem createsEach_cons (nodup : (key :: keys).Nodup) (same : middle.map = this.map)
    (ran : this.createFrom program ⟨factory, interface, key, args⟩ values = some (ptr, left, middle)) :
    CreatesEach program factory interface args given (key :: keys) values this ↔
      (∀ object, ptr = some object ↔ this.Builds program ⟨factory, interface, key, args⟩ given object) ∧
        CreatesEach program factory interface args given keys left middle := by
  obtain ⟨fresh, _⟩ := List.nodup_cons.mp nodup
  have absent {rest : List (Key × Object)} {later : Factories T Key Value Delegate}
      (created : createAll program factory interface args keys left middle = some (rest, later)) (object : Object) :
      (key, object) ∉ rest := by
    intro entry
    exact fresh ((keys_createAll created).subset (List.mem_map_of_mem entry))
  have others {key' : Key} (member : key' ∈ keys) (object : Object) {rest : List (Key × Object)} :
      (key', object) ∈ record key ptr rest ↔ (key', object) ∈ rest := by
    have other : key' ≠ key := by
      rintro rfl
      exact fresh member
    simp [mem_record, other]
  constructor
  · rintro ⟨ret, later, all, entries⟩
    obtain ⟨_, _, _, rest, ran', created, rfl⟩ := createAll_cons.mp all
    cases ran.symm.trans ran'
    refine ⟨?_, rest, later, created, ?_⟩
    · intro object
      have head := entries key List.mem_cons_self object
      simpa [mem_record, absent created object] using head
    · intro key' member object
      rw [← others member object, entries key' (List.mem_cons_of_mem key member) object, Builds, Builds, same]
  · rintro ⟨first, rest, later, created, entries⟩
    refine ⟨record key ptr rest, later, createAll_cons.mpr ⟨ptr, left, middle, rest, ran, created, rfl⟩, ?_⟩
    intro key' member object
    rcases List.mem_cons.mp member with rfl | member
    · rw [← first object]
      simp [mem_record, absent created object]
    · rw [others member object, entries key' member object, Builds, Builds, same]

theorem createsEach_cons_none (nodup : (key :: keys).Nodup)
    (absent : this.map ⟨factory, interface, key, args⟩ = none) :
    CreatesEach program factory interface args given (key :: keys) values this ↔
      CreatesEach program factory interface args given keys values this := by
  have ran : this.createFrom program ⟨factory, interface, key, args⟩ values = some (none, values, this) := by
    rw [createFrom, absent]
  rw [createsEach_cons nodup rfl ran]
  simp [Builds, absent]

theorem createsEach_cons_some (nodup : (key :: keys).Nodup)
    (found : this.map ⟨factory, interface, key, args⟩ = some registration) :
    CreatesEach program factory interface args given (key :: keys) values this ↔
      this.SameFor program ⟨factory, interface, key, args⟩ registration given values ∧
        CreatesEach program factory interface args given keys
          (this.argumentsLeft program ⟨factory, interface, key, args⟩ registration values)
          (this.getInstance ⟨factory, interface, key, args⟩ registration values).2 := by
  rw [sameFor_iff]
  let place : Place T Key := ⟨factory, interface, key, args⟩
  by_cases crash : (this.objectOf program place registration values).isNone ∧ program.derefsNull place registration
  · have stopped : this.createFrom program place values = none := by
      simp [createFrom, place, found, crash.1, crash.2]
    constructor
    · rintro ⟨ret, later, all, _⟩
      obtain ⟨_, _, _, _, ran, _⟩ := createAll_cons.mp all
      cases stopped.symm.trans ran
    · rintro ⟨⟨built, null⟩, _⟩
      have released := null (built.symm.trans (Option.isNone_iff_eq_none.mp crash.1))
      cases released.symm.trans crash.2
  · have ran : this.createFrom program place values = some (this.objectOf program place registration values,
        this.argumentsLeft program place registration values, (this.getInstance place registration values).2) := by
      simp [createFrom, place, found]
      simpa [place] using crash
    rw [createsEach_cons nodup (getInstance_kept this place registration values).2 ran]
    apply and_congr_left
    intro _
    simp only [Builds, found, Option.some.injEq, exists_eq_left']
    constructor
    · intro same
      have built := Option.ext same
      refine ⟨built, ?_⟩
      intro null
      simpa [place, built, null] using crash
    · rintro ⟨built, _⟩ object
      rw [built]

end

theorem undisturbed_cons_none {key : Key} {keys : List Key} {given left : List Value}
    (absent : this.map ⟨factory, interface, key, args⟩ = none) :
    Undisturbed program factory interface args given (key :: keys) left this ↔
      Undisturbed program factory interface args given keys left this := by
  simp only [Undisturbed, absent]

theorem createsEach_iff {keys : List Key} (nodup : keys.Nodup) (given values : List Value)
    (this : Factories T Key Value Delegate) :
    CreatesEach program factory interface args given keys values this ↔
      Undisturbed program factory interface args given keys values this := by
  induction keys generalizing values this with
  | nil => exact ⟨fun _ => trivial, fun _ => ⟨[], this, rfl, by simp⟩⟩
  | cons key keys ih =>
    cases found : this.map ⟨factory, interface, key, args⟩ with
    | none =>
      rw [createsEach_cons_none nodup found, ih nodup.of_cons, undisturbed_cons_none found]
    | some registration =>
      rw [createsEach_cons_some nodup found, ih nodup.of_cons]
      simp only [Undisturbed, found]

/-- `createAll` gives exactly the inscribed keys whose delegates yield an object, each
with the object that its delegate builds from the arguments of the caller, exactly if
what the calls leave of the arguments makes no difference to the later ones. -/
theorem createAll_iff (program : Program T Value Delegate Object) (this : Factories T Key Value Delegate)
    (factory : Nat) (interface : T) (inscribed : InterfaceKeys this factory interface) (args : List T)
    (values : List Value) :
    (∃ ret later, createAll program factory interface args inscribed.keys values this = some (ret, later) ∧
        ∀ key object, (key, object) ∈ ret ↔ this.Builds program ⟨factory, interface, key, args⟩ values object) ↔
      Undisturbed program factory interface args values inscribed.keys values this := by
  rw [← createsEach_iff inscribed.nodup]
  constructor
  · rintro ⟨ret, later, ran, entries⟩
    exact ⟨ret, later, ran, fun key _ => entries key⟩
  · rintro ⟨ret, later, ran, entries⟩
    refine ⟨ret, later, ran, ?_⟩
    intro key object
    by_cases member : key ∈ inscribed.keys
    · exact entries key member object
    · constructor
      · intro entry
        exact absurd ((keys_createAll ran).subset (List.mem_map_of_mem entry)) member
      · rintro ⟨registration, found, _⟩
        exact absurd (inscribed.complete key args (by simp [found])) member

section

/-- Every delegate of the keys makes a new object, of a class that has no counter. -/
def MakesNew (program : Program T Value Delegate Object) (this : Factories T Key Value Delegate) (factory : Nat)
    (interface : T) (args : List T) (keys : List Key) : Prop :=
  ∀ key ∈ keys, ∀ registration, this.map ⟨factory, interface, key, args⟩ = some registration →
    registration.fType = .default ∧ program.intrusive registration.class_ = false

variable {key : Key} {keys : List Key} {given : List Value}

omit [DecidableEq T] in
theorem MakesNew.of_cons (new : MakesNew program this factory interface args (key :: keys)) :
    MakesNew program this factory interface args keys :=
  fun key' member => new key' (List.mem_cons_of_mem _ member)

theorem undisturbed_cons_default {values : List Value}
    (found : this.map ⟨factory, interface, key, args⟩ = some registration) (type : registration.fType = .default)
    (plain : program.intrusive registration.class_ = false)
    (read : ∀ type ∈ args, program.passing type ≠ .reference) :
    Undisturbed program factory interface args given (key :: keys) values this ↔
      program.build registration.func values = program.build registration.func given ∧
        Undisturbed program factory interface args given keys (program.argumentsAfter args values [])
          (this.make registration.func values).2 := by
  have called : this.argumentsLeft program ⟨factory, interface, key, args⟩ registration values =
      program.argumentsAfter args values [] := by
    simp only [argumentsLeft, callsDelegate, type, if_true]
    exact Program.argumentsAfter_of_no_reference read values _
  have same : this.SameFor program ⟨factory, interface, key, args⟩ registration given values ↔
      program.build registration.func values = program.build registration.func given := by
    have released : program.derefsNull (⟨factory, interface, key, args⟩ : Place T Key) registration = false := by
      simp only [Program.derefsNull, type, plain]
    rw [sameFor_iff, objectOf_called (by simp only [callsDelegate, type])]
    exact and_iff_left fun _ => released
  simp only [Undisturbed, found, called, same, getInstance_default type]

/-- Once the arguments are used up, every delegate gets the same: what was moved from
stays as it is. -/
theorem undisturbed_used {this : Factories T Key Value Delegate}
    (new : MakesNew program this factory interface args keys)
    (read : ∀ type ∈ args, program.passing type ≠ .reference)
    (twice : program.argumentsAfter args (program.argumentsAfter args given []) [] =
      program.argumentsAfter args given []) :
    Undisturbed program factory interface args given keys (program.argumentsAfter args given []) this ↔
      ∀ key ∈ keys, ∀ registration, this.map ⟨factory, interface, key, args⟩ = some registration →
        program.build registration.func (program.argumentsAfter args given []) =
          program.build registration.func given := by
  induction keys generalizing this with
  | nil => simp [Undisturbed]
  | cons key keys ih =>
    cases found : this.map ⟨factory, interface, key, args⟩ with
    | none =>
      rw [undisturbed_cons_none found, ih new.of_cons]
      simp [found]
    | some registration =>
      obtain ⟨type, plain⟩ := new key List.mem_cons_self registration found
      have rest : MakesNew program (this.make registration.func (program.argumentsAfter args given [])).2 factory
          interface args keys := new.of_cons
      rw [undisturbed_cons_default found type plain read, twice, ih rest]
      simp [found, make]

/-- Every delegate after the first must build from the used arguments what it would
build from the given ones. -/
theorem undisturbed_iff_of_makesNew {this : Factories T Key Value Delegate}
    (new : MakesNew program this factory interface args keys)
    (read : ∀ type ∈ args, program.passing type ≠ .reference)
    (twice : program.argumentsAfter args (program.argumentsAfter args given []) [] =
      program.argumentsAfter args given []) :
    Undisturbed program factory interface args given keys given this ↔
      ∀ key ∈ (keys.filter fun key => (this.map ⟨factory, interface, key, args⟩).isSome).tail,
        ∀ registration, this.map ⟨factory, interface, key, args⟩ = some registration →
          program.build registration.func (program.argumentsAfter args given []) =
            program.build registration.func given := by
  induction keys with
  | nil => simp [Undisturbed]
  | cons key keys ih =>
    cases found : this.map ⟨factory, interface, key, args⟩ with
    | none =>
      rw [undisturbed_cons_none found, ih new.of_cons]
      simp [found]
    | some registration =>
      obtain ⟨type, plain⟩ := new key List.mem_cons_self registration found
      have rest : MakesNew program (this.make registration.func given).2 factory interface args keys := new.of_cons
      rw [undisturbed_cons_default found type plain read, undisturbed_used rest read twice]
      simp only [found, Option.isSome_some, List.filter_cons_of_pos, List.tail_cons, true_and, List.mem_filter, make]
      constructor
      · intro all key' member registration' found'
        exact all key' member.1 registration' found'
      · intro all key' member registration' found'
        exact all key' ⟨member, by rw [found', Option.isSome_some]⟩ registration' found'

theorem undisturbed_of_constReference {this : Factories T Key Value Delegate}
    (new : MakesNew program this factory interface args keys)
    (read : ∀ type ∈ args, program.passing type = .constReference) :
    Undisturbed program factory interface args given keys given this := by
  have kept := Program.argumentsAfter_of_constReference read given []
  refine (undisturbed_iff_of_makesNew new ?_ ?_).mpr ?_
  · intro type member written
    cases (read type member).symm.trans written
  · rw [kept, kept]
  · intro key _ registration _
    rw [kept]

end

section

/-- Its delegates take a string by value and give it as their object; a string that was
moved from is empty. -/
def takesString : Program Nat String Unit String where
  build _ values := values.head?
  leave _ values := values
  passing _ := .byValue
  moved _ := ""
  intrusive _ := false

def twoStrings : Factories Nat String String Unit :=
  ((new fun _ => 0).inscribe ⟨0, 1, "first", [3]⟩ ⟨2, .default, ()⟩).inscribe ⟨0, 1, "second", [3]⟩ ⟨2, .default, ()⟩

def keysOfTwoStrings : InterfaceKeys twoStrings 0 1 where
  keys := ["first", "second"]
  nodup := by decide
  complete := by
    intro key args inscribed
    by_contra other
    simp only [List.mem_cons, List.not_mem_nil, or_false, not_or] at other
    simp [twoStrings, inscribe, new, other.1, other.2] at inscribed

/-- The second delegate gets an empty string. -/
theorem createAll_fails :
    ¬ ∃ ret later, createAll takesString 0 1 [3] keysOfTwoStrings.keys ["Data"] twoStrings = some (ret, later) ∧
      ∀ key object, (key, object) ∈ ret ↔ twoStrings.Builds takesString ⟨0, 1, key, [3]⟩ ["Data"] object := by
  rintro ⟨ret, later, ran, entries⟩
  have first : some [("first", "Data"), ("second", "")] = some ret := congrArg (Option.map Prod.fst) ran
  cases first
  have entry := (entries "second" "Data").mpr ⟨⟨2, .default, ()⟩, rfl, rfl⟩
  exact absurd entry (by decide)

end

end Factories

end Goap
