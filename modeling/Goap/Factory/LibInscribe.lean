import Goap.Factory.Singleton

namespace Goap

inductive LibClass where
  | iRoot
  | iBasicSinkCollection
  | basicSinkCollection
  | iBasicSink
  | basicOstreamSink
  | iStateValueIterator
  | stateValueIterator
  | iStateIterator
  | stateIterator
  | sequencer
  | iState
  | state
  | iStateValue
  | stateValue
  | iStringValue
  | iPlanningStateMeter
  | planningStateMeter
  | comparerStateMeter
  | iFunctionStateMeter
  | functionStateMeter
  | iPlanningStateComparer
  | numericStateComparer
  | levensteinStateComparer
  | exactStateComparer
  | iPrioritized
  | prioritizedQueue
  | prioritizedStack
  | iPlanner
  | planner
  | iScopeTime
  | scopeTime
  | scopeTimeCerr
  | scopeTimeCout
  | iPlanningAction
  | planningAction
  | iPath
  | path
  | statesPlan
deriving DecidableEq

/-- The types in the inscriptions: a class, `RecyclableWrapper` of it, `Ptr` and `CPtr` to
it, and what else stands in an argument list. -/
inductive LibType where
  | class_ (name : LibClass)
  | recyclable (name : LibClass)
  | ptr (name : LibClass)
  | cptr (name : LibClass)
  | float
  | bool
  | string
  | charPointer
  | ostream
  | stateEntry
  | stateMap
  | planningMethod
  | validator
  | executor
  | pfnTime
  | initializerList (element : LibType)
  | list (element : LibType)
  | ref (type : LibType)
  | constRef (type : LibType)
deriving DecidableEq

/-- How an inscription makes its object: `new` of a class, or a lambda that takes one
from its pool and sets its fields. -/
inductive LibDelegate where
  | defaultDelegate (name : LibClass)
  | fromPool (name : LibClass)
deriving DecidableEq

def LibDelegate.class_ : LibDelegate → LibType
  | .defaultDelegate name => .class_ name
  | .fromPool name => .recyclable name

/-- One call of `inscribe`; `key` is what follows the discriminator. -/
structure Inscription where
  fType : FactoryType
  interface : LibClass
  delegate : LibDelegate
  args : List LibType
  key : String

abbrev LibFactories (Value : Type) := Factories LibType String Value LibDelegate

open LibClass LibType LibDelegate FactoryType

def STR_GOAP_COMPARERSTATEMETER : String := "ComparerStateMeter"
def STR_GOAP_FUNCTIONSTATEMETER : String := "FunctionStateMeter"
def STR_GOAP_NUMERICSTATECOMPARER : String := "NumericStateComparer"
def STR_GOAP_EXACTSTATECOMPARER : String := "ExactStateComparer"
def STR_GOAP_LEVENSTEINSTATECOMPARER : String := "LevensteintStateComparer"
def STR_GOAP_NUMERICSTATECOMPARER_SINGLETON : String := "NumericStateComparerSingleton"
def STR_GOAP_EXACTSTATECOMPARER_SINGLETON : String := "ExactStateComparerSingleton"
def STR_GOAP_LEVENSTEINSTATECOMPARER_SINGLETON : String := "LevensteinStateComparerSingleton"
def STR_GOAP_PRIORITIZED_QUEUE : String := "queue"
def STR_GOAP_PRIORITIZED_STACK : String := "stack"

/-- The body of `goapLibInscribeExplicit`. -/
@[irreducible] def inscriptions : List Inscription :=
  [⟨default, iBasicSinkCollection, defaultDelegate basicSinkCollection, [], ""⟩,
    ⟨default, iBasicSinkCollection, defaultDelegate basicSinkCollection, [constRef string, ptr iBasicSink], ""⟩,
    ⟨default, iBasicSinkCollection, defaultDelegate basicSinkCollection, [constRef string, ref ostream], ""⟩,
    ⟨default, iBasicSink, defaultDelegate basicSinkCollection, [], "Collection"⟩,
    ⟨default, iBasicSink, defaultDelegate basicSinkCollection, [constRef string, ptr iBasicSink], "Collection"⟩,
    ⟨default, iBasicSink, defaultDelegate basicSinkCollection, [constRef string, ref ostream], "Collection"⟩,
    ⟨default, iBasicSink, defaultDelegate basicOstreamSink, [], ""⟩,
    ⟨default, iStateValueIterator, fromPool stateValueIterator, [], ""⟩,
    ⟨default, iStateValueIterator, fromPool stateValueIterator, [constRef (cptr iState)], ""⟩,
    ⟨default, iStateValueIterator, fromPool stateValueIterator, [constRef (ptr iState)], ""⟩,
    ⟨default, iStateIterator, fromPool stateIterator, [], ""⟩,
    ⟨default, iStateIterator, fromPool stateIterator, [constRef (cptr sequencer)], ""⟩,
    ⟨default, iStateIterator, fromPool stateIterator, [constRef (ptr sequencer)], ""⟩,
    ⟨default, iState, fromPool state, [], ""⟩,
    ⟨default, iState, fromPool state, [constRef (cptr iState)], ""⟩,
    ⟨default, iState, fromPool state, [constRef (class_ state)], ""⟩,
    ⟨default, iState, fromPool state, [constRef (initializerList stateEntry)], ""⟩,
    ⟨default, iState, fromPool state, [initializerList stateEntry], ""⟩,
    ⟨default, iState, fromPool state, [ref (initializerList stateEntry)], ""⟩,
    ⟨default, iState, fromPool state, [ref stateMap], ""⟩,
    ⟨default, iStateValue, fromPool stateValue, [], ""⟩,
    ⟨default, iStateValue, fromPool stateValue, [constRef (class_ stateValue)], ""⟩,
    ⟨default, iStateValue, fromPool stateValue, [constRef (cptr iStateValue)], ""⟩,
    ⟨default, iStateValue, fromPool stateValue, [constRef string], ""⟩,
    ⟨default, iStateValue, fromPool stateValue, [charPointer], ""⟩,
    ⟨default, iStateValue, fromPool stateValue, [ref charPointer], ""⟩,
    ⟨default, iStateValue, fromPool stateValue, [constRef (initializerList float)], ""⟩,
    ⟨default, iStateValue, fromPool stateValue, [initializerList float], ""⟩,
    ⟨default, iStateValue, fromPool stateValue, [ref (initializerList float)], ""⟩,
    ⟨default, iStringValue, fromPool stateValue, [], ""⟩,
    ⟨default, iPlanningStateMeter, fromPool comparerStateMeter, [cptr iState, ptr iPlanningStateComparer],
      STR_GOAP_COMPARERSTATEMETER⟩,
    ⟨default, iPlanningStateMeter, fromPool functionStateMeter, [cptr iState], STR_GOAP_FUNCTIONSTATEMETER⟩,
    ⟨default, iFunctionStateMeter, fromPool functionStateMeter, [cptr iState], ""⟩,
    ⟨default, iPlanningStateComparer, defaultDelegate numericStateComparer, [], STR_GOAP_NUMERICSTATECOMPARER⟩,
    ⟨singleton, iPlanningStateComparer, defaultDelegate numericStateComparer, [],
      STR_GOAP_NUMERICSTATECOMPARER_SINGLETON⟩,
    ⟨default, iPlanningStateComparer, defaultDelegate levensteinStateComparer, [], STR_GOAP_LEVENSTEINSTATECOMPARER⟩,
    ⟨singleton, iPlanningStateComparer, defaultDelegate levensteinStateComparer, [],
      STR_GOAP_LEVENSTEINSTATECOMPARER_SINGLETON⟩,
    ⟨default, iPlanningStateComparer, defaultDelegate exactStateComparer, [], STR_GOAP_EXACTSTATECOMPARER⟩,
    ⟨singleton, iPlanningStateComparer, defaultDelegate exactStateComparer, [],
      STR_GOAP_EXACTSTATECOMPARER_SINGLETON⟩,
    ⟨default, iPrioritized, defaultDelegate prioritizedQueue, [], STR_GOAP_PRIORITIZED_QUEUE⟩,
    ⟨default, iPrioritized, defaultDelegate prioritizedStack, [], STR_GOAP_PRIORITIZED_STACK⟩,
    ⟨default, iPlanningStateMeter, defaultDelegate planningStateMeter, [], ""⟩,
    ⟨default, iPlanner, defaultDelegate planner, [], ""⟩,
    ⟨default, iPlanner, fromPool planner, [planningMethod, constRef (list (cptr iPlanningAction))], ""⟩,
    ⟨default, iStateValue, defaultDelegate stateValue, [], "Default"⟩,
    ⟨default, iStateValue, defaultDelegate stateValue, [constRef (class_ stateValue)], "Default"⟩,
    ⟨default, iStateValue, defaultDelegate stateValue, [constRef (cptr iStateValue)], "Default"⟩,
    ⟨default, iStateValue, defaultDelegate stateValue, [constRef string], "Default"⟩,
    ⟨default, iStateValue, defaultDelegate stateValue, [charPointer], "Default"⟩,
    ⟨default, iScopeTime, fromPool scopeTimeCerr, [charPointer, bool], ""⟩,
    ⟨default, iScopeTime, fromPool scopeTimeCout, [charPointer, bool], "Cout"⟩,
    ⟨default, iScopeTime, fromPool scopeTime, [charPointer, pfnTime, bool], ""⟩,
    ⟨default, iPlanningAction, defaultDelegate planningAction, [], ""⟩,
    ⟨default, iPlanningAction, fromPool planningAction, [cptr iStringValue, validator, executor], ""⟩,
    ⟨default, iPath, fromPool path, [cptr iPlanningAction, ptr iPath, float], ""⟩,
    ⟨default, statesPlan, fromPool statesPlan, [], ""⟩]

namespace LibFactories

variable {Value : Type}

/-- A program in which nothing is inscribed yet; `Factory<IRoot>::singleton()` is its
first factory. -/
def new : LibFactories Value := Factories.new fun _ => .class_ iRoot

def inscribeIn (factory : Nat) (discr : String) (this : LibFactories Value) (entry : Inscription) : LibFactories Value :=
  this.inscribe ⟨factory, .class_ entry.interface, discr ++ entry.key, entry.args⟩
    ⟨entry.delegate.class_, entry.fType, entry.delegate⟩

/-- `goapLibInscribeExplicit`, which answers the number of inscriptions. -/
def goapLibInscribeExplicit (this : LibFactories Value) (factory : Nat) (discr : String) : Nat × LibFactories Value :=
  (inscriptions.length, inscriptions.foldl (inscribeIn factory discr) this)

def goapLibInscribe (this : LibFactories Value) (discr : String) : LibFactories Value :=
  (this.goapLibInscribeExplicit 0 discr).2

/-- `NewPtr<Interface>(discr)`. -/
def newPtr (this : LibFactories Value) (interface : LibClass) (discr : String) :
    Option (Made LibDelegate Value) × LibFactories Value :=
  this.create ⟨0, .class_ interface, discr, []⟩ []

theorem map_foldl_inscribeIn {place : Place LibType String} {factory : Nat} {discr : String}
    (entries : List Inscription) (absent : ∀ entry ∈ entries, .class_ entry.interface ≠ place.interface)
    (this : LibFactories Value) : (entries.foldl (inscribeIn factory discr) this).map place = this.map place := by
  induction entries generalizing this with
  | nil => rfl
  | cons entry rest ih =>
    obtain ⟨other, others⟩ := List.forall_mem_cons.mp absent
    rw [List.foldl_cons, ih others]
    refine Function.update_of_ne ?_ _ _
    rintro rfl
    exact other rfl

theorem map_goapLibInscribe {place : Place LibType String}
    (absent : ∀ entry ∈ inscriptions, .class_ entry.interface ≠ place.interface) (this : LibFactories Value)
    (discr : String) : (this.goapLibInscribe discr).map place = this.map place := by
  rw [goapLibInscribe, goapLibInscribeExplicit]
  exact map_foldl_inscribeIn inscriptions absent this

def goapLibInscribeAll (this : LibFactories Value) : List String → LibFactories Value
  | [] => this
  | discr :: rest => (this.goapLibInscribe discr).goapLibInscribeAll rest

theorem map_goapLibInscribeAll (place : Place LibType String)
    (absent : ∀ entry ∈ inscriptions, .class_ entry.interface ≠ place.interface) (this : LibFactories Value)
    (discrs : List String) : (this.goapLibInscribeAll discrs).map place = this.map place := by
  induction discrs generalizing this with
  | nil => rfl
  | cons discr rest ih =>
    have first := map_goapLibInscribe absent this discr
    rw [goapLibInscribeAll]
    exact (ih (this.goapLibInscribe discr)).trans first

end LibFactories

end Goap
