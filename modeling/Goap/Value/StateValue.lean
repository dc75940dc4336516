import Goap.Value.FloatOps

namespace Goap

open FloatOps BasicMath

/-- `StateValue`: a vector of floats, used for the keys and the values of a state. -/
structure StateValue (F : Type) where
  data : List F
deriving DecidableEq

namespace StateValue

variable {F : Type} [FloatOps F]

/-- `assign(const std::string &)` of an ASCII text: one component for each character. -/
def ofString (text : String) : StateValue F :=
  ⟨text.toList.map fun char => lit char.toNat⟩

/-- `New(float)`: a value of one component. -/
def scalar (value : F) : StateValue F := ⟨[value]⟩

def size (value : StateValue F) : Nat := value.data.length

/-- `at(int64_t)`: positions outside the vector read its nearest end. -/
def atInt64 (value : StateValue F) (idx : Int) : F :=
  if value.data.length = 0 then lit 0
  else
    let idx := if (value.data.length : Int) ≤ idx then (value.data.length : Int) - 1
      else if idx < 0 then 0 else idx
    value.data.getD idx.toNat (lit 0)

/-- `equals(const IStateValue::CNew &)`: same size and componentwise `floatEqual`. -/
def equals (value other : StateValue F) : Bool :=
  value.size == other.size && (value.data.zip other.data).all fun pair => floatEqual pair.1 pair.2

/-- `hash()`; the value 0 stands for an empty cache and is never returned. -/
def hash (value : StateValue F) : UInt64 :=
  let h := BasicMath.hash value.data
  if h = 0 then 1 else h

/-- How the unordered containers keyed by values probe a stored key. -/
def keyMatch (probe stored : StateValue F) : Bool :=
  probe.hash == stored.hash && probe.equals stored

/-- `add(const IStateValue::CNew &)` on the components; the shorter vector is
resized with zeros. -/
def addComponents : List F → List F → List F
  | these, [] => these
  | [], other :: rest => (lit 0 + other) :: addComponents [] rest
  | this :: these, other :: rest => (this + other) :: addComponents these rest

def add (value other : StateValue F) : StateValue F :=
  ⟨addComponents value.data other.data⟩

end StateValue

end Goap
