import Goap.AS3.Hashing

namespace Goap.AS3

open Hashing

variable {Other : Type}

namespace Object

/-- `object[name] = value`. -/
def put (object : Object Other) (name : String) (value : Option (Value Other)) : Object Other :=
  AList.insert name value object

theorem at?_put (object : Object Other) (name : String) (value : Option (Value Other)) (name' : String) :
    (object.put name value).at? name' = if name' = name then value else object.at? name' := by
  by_cases same : name' = name
  · subst same
    simp [at?, put]
  · simp [at?, put, same]

/-- The first loop of `setMap`: what `m` has not is set to null. -/
def nullMissing (object m : Object Other) : Object Other :=
  object.keys.foldl (fun object key => if (m.at? key).isNone then object.put key none else object) object

/-- The second loop of `setMap`: what `m` has is copied. -/
def copyValues (object m : Object Other) : Object Other :=
  m.keys.foldl (fun object key => match m.at? key with
    | none => object
    | some val => object.put key (some val)) object

theorem at?_foldl {step : Object Other → String → Object Other} (next : String → Option (Value Other))
    (taken : String → Bool)
    (stepped : ∀ object key name, (step object key).at? name =
      if name = key ∧ taken key then next key else object.at? name) (keys : List String) (object : Object Other)
    (name : String) :
    (keys.foldl step object).at? name = if name ∈ keys ∧ taken name then next name else object.at? name := by
  induction keys generalizing object with
  | nil => simp
  | cons key keys ih =>
    rw [List.foldl_cons, ih, stepped]
    by_cases same : name = key
    · subst same
      by_cases covered : taken name = true <;> simp [covered]
    · simp [same]

theorem at?_nullMissing (object m : Object Other) (name : String) : (object.nullMissing m).at? name =
    if name ∈ object.keys ∧ (m.at? name).isNone then none else object.at? name := by
  refine at?_foldl (fun _ => none) (fun key => (m.at? key).isNone) ?_ object.keys object name
  intro object key name
  by_cases null : (m.at? key).isNone = true
  · simp [null, at?_put]
  · simp [null]

theorem at?_copyValues (object m : Object Other) (name : String) : (object.copyValues m).at? name =
    if name ∈ m.keys ∧ (m.at? name).isSome then m.at? name else object.at? name := by
  refine at?_foldl m.at? (fun key => (m.at? key).isSome) ?_ m.keys object name
  intro object key name
  cases found : m.at? key with
  | none => simp
  | some val => simp [at?_put]

theorem at?_of_notMem {object : Object Other} {name : String} (absent : name ∉ object.keys) : object.at? name = none := by
  rw [at?, AList.lookup_eq_none.mpr absent]
  rfl

theorem at?_setMap (object m : Object Other) : ((object.nullMissing m).copyValues m).at? = m.at? := by
  funext name
  rw [at?_copyValues, at?_nullMissing]
  cases found : m.at? name with
  | some val =>
    have member : name ∈ m.keys := by
      by_contra absent
      rw [at?_of_notMem absent] at found
      cases found
    simp [member]
  | none =>
    by_cases member : name ∈ object.keys
    · simp [member]
    · simp [member, at?_of_notMem member]

end Object

/-- What the operators `+`, `*`, `&&` and `||` answer, where null is `none`. -/
structure Operators (Other : Type) where
  plus : Option (Value Other) → Value Other → Option (Value Other)
  times : Option (Value Other) → Value Other → Option (Value Other)
  and : Option (Value Other) → Bool → Option (Value Other)
  or : Option (Value Other) → Bool → Option (Value Other)

variable [ToString Other]

/-- `Hashing.hashObject`. -/
def hashObject (o : Object Other) : UInt32 := (hashObject_AP .new o).1

theorem hashObject_AP_eq (_bytes : ByteArray) (o : Object Other) : (hashObject_AP _bytes o).1 = hashObject o := by
  rw [hashObject, hashObject_AP, hashObject_AP, written_eq _bytes .new]

theorem hashObject_ne_zero (o : Object Other) : hashObject o ≠ 0 := hash_AP_ne_zero _ _

theorem hashObject_of_bytes {_bytes _bytes' : ByteArray} {object other : Object Other}
    (same : (written _bytes object).bytes = (written _bytes' other).bytes) : hashObject object = hashObject other := by
  have handed : written _bytes object = written _bytes' other := ByteArray.cut_eq _ same
  rw [← hashObject_AP_eq _bytes object, ← hashObject_AP_eq _bytes' other, hashObject_AP, hashObject_AP, handed]

theorem bytes_congr {object other : Object Other} (same : object.at? = other.at?) (_bytes _bytes' : ByteArray) :
    (written _bytes object).bytes = (written _bytes' other).bytes := by
  have contents : texts object = texts other := texts_eq_iff.mpr fun name => by rw [same]
  rw [bytes_written, bytes_written, contents]

/-- A state. `_hash` is 0 or the hash of the contents. -/
structure State (Other : Type) [ToString Other] where
  map : Object Other
  _hash : UInt32
  fresh : _hash ≠ 0 → _hash = hashObject map

namespace State

/-- A state after `touch()`. -/
def touched (map : Object Other) : State Other := ⟨map, 0, fun computed => absurd rfl computed⟩

def new : State Other := touched ∅

def setMap (this : State Other) (m : Object Other) : State Other := touched ((this.map.nullMissing m).copyValues m)

def clearState (this : State Other) : State Other :=
  touched (this.map.keys.foldl (fun map key => map.put key none) this.map)

/-- `getNew`, with the state that the pool hands out. -/
def getNew (pooled : State Other) : Option (Object Other) → State Other
  | some map => pooled.setMap map
  | none => pooled.clearState

/-- `clone`, which takes the hash over. -/
def clone (this pooled : State Other) : State Other where
  map := (pooled.getNew (some this.map)).map
  _hash := this._hash
  fresh := by
    intro computed
    rw [this.fresh computed]
    exact hashObject_of_bytes (bytes_congr (Object.at?_setMap pooled.map this.map).symm .new .new)

def put (this : State Other) (key : String) (value : Option (Value Other)) : State Other :=
  touched (this.map.put key value)

def at? (this : State Other) (key : String) : Option (Value Other) := this.map.at? key

theorem at?_put (this : State Other) (key : String) (value : Option (Value Other)) (name : String) :
    (this.put key value).at? name = if name = key then value else this.at? name :=
  Object.at?_put this.map key value name

theorem at?_clone (this pooled : State Other) : (this.clone pooled).at? = this.at? :=
  Object.at?_setMap pooled.map this.map

theorem at?_clearState (this : State Other) (name : String) : this.clearState.at? name = none := by
  refine (Object.at?_foldl (fun _ => none) (fun _ => true) ?_ this.map.keys this.map name).trans ?_
  · intro object key name
    simp [Object.at?_put]
  · by_cases member : name ∈ this.map.keys
    · simp [member]
    · simp [member, Object.at?_of_notMem member]

/-- `_map[key] = value` of what is there. -/
def modify (this : State Other) (key : String) (operator : Option (Value Other) → Option (Value Other)) : State Other :=
  this.put key (operator (this.at? key))

def add (operators : Operators Other) (this : State Other) (key : String) (value : Value Other) : State Other :=
  this.modify key fun old => operators.plus old value

def mul (operators : Operators Other) (this : State Other) (key : String) (value : Value Other) : State Other :=
  this.modify key fun old => operators.times old value

def and (operators : Operators Other) (this : State Other) (key : String) (value : Bool) : State Other :=
  this.modify key fun old => operators.and old value

def or (operators : Operators Other) (this : State Other) (key : String) (value : Bool) : State Other :=
  this.modify key fun old => operators.or old value

def remove (this : State Other) (key : String) : State Other := this.put key none

/-- The getter `hash`, which keeps what it computes. -/
def hash (this : State Other) : UInt32 × State Other :=
  if this._hash = 0 then (hashObject this.map, ⟨this.map, hashObject this.map, fun _ => rfl⟩)
  else (this._hash, this)

def equals (this other : State Other) : Bool := this.hash.1 == other.hash.1

theorem hash_eq (this : State Other) : this.hash.1 = hashObject this.map := by
  rw [hash]
  split
  · rfl
  · exact this.fresh ‹_›

theorem map_hash (this : State Other) : this.hash.2.map = this.map := by
  rw [hash]
  split <;> rfl

theorem hash_again (this : State Other) : this.hash.2.hash = this.hash := by
  by_cases computed : this._hash = 0
  · simp [hash, computed, hashObject_ne_zero]
  · simp [hash, computed]

end State

/-- The values of a dictionary under the hashes of states. -/
structure StatesDictionary (V : Type) where
  dictionary : AList fun _ : UInt32 => V

namespace StatesDictionary

variable {V : Type}

def new : StatesDictionary V := ⟨∅⟩

def at? (this : StatesDictionary V) (key : State Other) : Option V := this.dictionary.lookup key.hash.1

def setAt (this : StatesDictionary V) (key : State Other) (value : V) : StatesDictionary V :=
  ⟨this.dictionary.insert key.hash.1 value⟩

def remove (this : StatesDictionary V) (key : State Other) : StatesDictionary V := ⟨this.dictionary.erase key.hash.1⟩

def length (this : StatesDictionary V) : Nat := this.dictionary.entries.length

def clear (_ : StatesDictionary V) : StatesDictionary V := ⟨∅⟩

def isEmpty (this : StatesDictionary V) : Bool := this.dictionary.entries.isEmpty

theorem at?_setAt (this : StatesDictionary V) (key : State Other) (value : V) (key' : State Other) :
    (this.setAt key value).at? key' = if key'.equals key then some value else this.at? key' := by
  by_cases same : key'.hash.1 = key.hash.1
  · rw [at?, setAt, State.equals, same, AList.lookup_insert]
    simp
  · simp [at?, setAt, State.equals, same]

end StatesDictionary

end Goap.AS3
