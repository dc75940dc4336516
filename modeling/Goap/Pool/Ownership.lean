import Goap.Foundation.CountedHeap
import Goap.Foundation.Run

namespace Goap

open Foundation CountedHeap

inductive PoolName where
  | planningAction
  | planner
  | functionStateMeter
  | comparerStateMeter
  | path
  | other (name : Nat)
deriving DecidableEq

/-- The delegate of a `Default` registration. The class of a new object may be
recyclable, and has a pool then. -/
inductive DelegateKind where
  | defaultDelegate (pool : Option PoolName)
  | createFromPoolRaw (pool : PoolName)
  | newObject (pool : Option PoolName)
deriving DecidableEq

/-- Where a smart pointer to an object that nobody owned comes from. -/
inductive Route where
  | createFromPool (pool : PoolName)
  | newPlanningAction
  | newPlanner
  | newFunctionStateMeter
  | newComparerStateMeter
  | newPath
  | factoryCreate (delegate : DelegateKind)
deriving DecidableEq

def Route.Balances : Route → Prop
  | .factoryCreate (.defaultDelegate _) => True
  | .factoryCreate (.createFromPoolRaw _) => True
  | _ => False

abbrev Heap := CountedHeap PoolName

namespace Heap

/-- `ReuseObjectPool::create` of intrusive objects, which is `createFromPoolRaw`. -/
def createFromPoolRaw (heap : Heap) (pool : PoolName) : Option (Nat × Heap) := do
  let (instance_, heap) ← heap.createRaw pool
  let heap ← heap.addRef instance_
  return (instance_, heap)

def fromRaw (heap : Heap) (instance_ : Nat) : Option Heap := do
  let heap ← heap.addRef instance_
  return heap.push (some instance_)

/-- `RecyclableWrapper<P>::createFromPool` of an intrusive class. -/
def createFromPool (heap : Heap) (pool : PoolName) : Option Heap := do
  let (instance_, heap) ← createFromPoolRaw heap pool
  fromRaw heap instance_

/-- The pattern of the library's functions: an object of the class's pool is filled
and returned as a smart pointer. -/
def newFromPool (heap : Heap) (pool : PoolName) : Option Heap := do
  let (ret, heap) ← createFromPoolRaw heap pool
  fromRaw heap ret

def newPlanningAction (heap : Heap) : Option Heap := newFromPool heap .planningAction

def newPlanner (heap : Heap) : Option Heap := newFromPool heap .planner

/-- The meters that the goal state of a new function meter brings are created by calls
of their own. -/
def newFunctionStateMeter (heap : Heap) : Option Heap := newFromPool heap .functionStateMeter

def newComparerStateMeter (heap : Heap) : Option Heap := newFromPool heap .comparerStateMeter

def newPath (heap : Heap) : Option Heap := newFromPool heap .path

/-- `defaultDelegate` of an intrusive class. -/
def defaultDelegate (heap : Heap) (pool : Option PoolName) : Option (Nat × Heap) := do
  let (t, heap) := heap.allocate pool
  let heap ← heap.addRef t
  return (t, heap)

def delegate (heap : Heap) : DelegateKind → Option (Nat × Heap)
  | .defaultDelegate pool => defaultDelegate heap pool
  | .createFromPoolRaw pool => createFromPoolRaw heap pool
  | .newObject pool => some (heap.allocate pool)

/-- `Factory::create` from a `Default` registration: the shared pointer of
`getInstance` lives until the result has been set from it, and its deleter
releases the object. -/
def factoryCreate (maxSize : Nat) (heap : Heap) (kind : DelegateKind) : Option (Option Nat × Heap) := do
  let (pInstance, heap) ← delegate heap kind
  let heap ← heap.addRef pInstance
  let (suicide, heap) ← heap.release maxSize pInstance
  return (suicide, heap.push (some pInstance))

/-- Creation by a route, with the object that commits suicide in it. -/
def create (maxSize : Nat) (heap : Heap) : Route → Option (Option Nat × Heap)
  | .createFromPool pool => (createFromPool heap pool).map fun heap => (none, heap)
  | .newPlanningAction => (newPlanningAction heap).map fun heap => (none, heap)
  | .newPlanner => (newPlanner heap).map fun heap => (none, heap)
  | .newFunctionStateMeter => (newFunctionStateMeter heap).map fun heap => (none, heap)
  | .newComparerStateMeter => (newComparerStateMeter heap).map fun heap => (none, heap)
  | .newPath => (newPath heap).map fun heap => (none, heap)
  | .factoryCreate kind => factoryCreate maxSize heap kind

/-- What a program does: it creates objects, and it handles its smart pointers. -/
inductive OwnerCall where
  | create (route : Route)
  | pointer (call : PointerCall)

/-- One step, with the object on which `suicide()` runs in it. -/
def step (maxSize : Nat) (heap : Heap) : OwnerCall → Option (Option Nat × Heap)
  | .create route => create maxSize heap route
  | .pointer call => heap.pointerStep maxSize call

/-- Every counter is the number of owners, and `suicide()` has run exactly if the last
owner went away. -/
def CountsOwners (heap : Heap) (_ : OwnerCall) (suicide : Option Nat) (heap' : Heap) : Prop :=
  (∀ address object, heap'.objects address = some object → object.counter.toInt = heap'.owners address) ∧
    LastOwnerGoes heap suicide heap'

/-- A step that does not create by a route that is out of balance and gives no object
2^31 owners. -/
def Moderate (_ : Heap) (call : OwnerCall) (_ : Option Nat) (heap' : Heap) : Prop :=
  (∀ route, call = .create route → route.Balances) ∧ ∀ address, heap'.owners address < 2 ^ 31

def GivesReference (heap : Heap) (given : Option (Nat × Heap)) : Prop :=
  ∃ address heap', given = some (address, heap') ∧ heap.owners address = 0 ∧ Balanced [address] heap' ∧
    heap'.pointers = heap.pointers

variable {heap heap' : Heap} {maxSize : Nat} {suicide : Option Nat}

theorem createFromPoolRaw_gives (balanced : Balanced [] heap) (pool : PoolName) :
    heap.GivesReference (createFromPoolRaw heap pool) := by
  obtain ⟨address, raw, heap', created, counted, unreferred, after, same⟩ := balanced.createRaw pool
  refine ⟨address, heap', ?_, unreferred, after, same⟩
  rw [createFromPoolRaw, created]
  show (raw.addRef address >>= fun heap => some (address, heap)) = _
  rw [counted]
  rfl

theorem defaultDelegate_gives (balanced : Balanced [] heap) (pool : Option PoolName) :
    heap.GivesReference (defaultDelegate heap pool) := by
  obtain ⟨heap', counted, after, same⟩ := balanced.allocate pool
  refine ⟨heap.fresh, heap', ?_, balanced.references_fresh, after, same⟩
  show ((heap.allocate pool).2.addRef heap.fresh >>= fun heap => some (_, heap)) = _
  rw [counted]
  rfl

/-- A smart pointer made of a raw one counts a reference of its own, next to the one
that came with the object. -/
theorem fromRaw_eq {address : Nat} (balanced : Balanced [address] heap) :
    ∃ heap', fromRaw heap address = some heap' ∧ Balanced [address] heap' ∧
      ∀ other, heap'.owners other = heap.owners other + if some address = some other then 1 else 0 := by
  have referred : heap.references [address] address ≠ 0 := by
    rw [references_cons, if_pos rfl]
    exact Nat.succ_ne_zero _
  obtain ⟨middle, counted, after, same⟩ := balanced.addRef referred
  refine ⟨middle.push (some address), ?_, Balanced.push after, ?_⟩
  · rw [fromRaw, counted]
    rfl
  · intro other
    rw [owners_push, owners_congr same]

theorem newFromPool_eq (balanced : Balanced [] heap) (pool : PoolName) :
    ∃ address heap', newFromPool heap pool = some heap' ∧ Balanced [address] heap' ∧ heap'.owners address = 1 := by
  obtain ⟨address, middle, created, unowned, after, same⟩ := createFromPoolRaw_gives balanced pool
  obtain ⟨heap', pointed, after', counted⟩ := fromRaw_eq after
  refine ⟨address, heap', ?_, after', ?_⟩
  · rw [newFromPool, created]
    exact pointed
  · rw [counted, if_pos rfl, owners_congr same, unowned]

theorem not_countsOwners {address : Nat} {call : OwnerCall} (after : Balanced [address] heap')
    (one : heap'.owners address = 1) : ¬ CountsOwners heap call suicide heap' := by
  rintro ⟨counts, _⟩
  have two : heap'.references [address] address = 2 := by
    rw [references_cons, if_pos rfl, references_nil, one]
  have referred : heap'.references [address] address ≠ 0 := by
    rw [two]
    exact Nat.succ_ne_zero _
  obtain ⟨object, found⟩ := after.present referred
  have counted := counts address object found
  rw [after.counter found, two, one] at counted
  exact absurd counted (by decide)

/-- Creation by a delegate that gives a reference with its object balances. -/
theorem factoryCreate_of_gives {kind : DelegateKind} (gives : heap.GivesReference (delegate heap kind))
    (maxSize : Nat) :
    ∃ heap', factoryCreate maxSize heap kind = some (none, heap') ∧ Balanced [] heap' ∧
      ∀ other, heap.owners other ≤ heap'.owners other := by
  obtain ⟨address, middle, created, unowned, after, same⟩ := gives
  have referred : middle.references [address] address ≠ 0 := by
    rw [references_cons, if_pos rfl]
    exact Nat.succ_ne_zero _
  obtain ⟨counted, ran, after', same'⟩ := after.addRef referred
  have one : counted.references [address] address = 1 := by
    rw [references_cons, if_pos rfl, references_nil, owners_congr same', owners_congr same, unowned]
  obtain ⟨released, ran', after'', same''⟩ := after'.release (by
    rw [one]
    decide) maxSize
  rw [one, if_neg Nat.one_ne_zero] at ran'
  refine ⟨released.push (some address), ?_, Balanced.push after'', ?_⟩
  · rw [factoryCreate, created]
    show (middle.addRef address >>= _) = _
    rw [ran]
    show (counted.release maxSize address >>= _) = _
    rw [ran']
    rfl
  · intro other
    rw [owners_push, owners_congr same'', owners_congr same', owners_congr same]
    exact Nat.le_add_right _ _

/-- A new object without a reference commits suicide before its owner has it. -/
theorem factoryCreate_newObject (balanced : Balanced [] heap) (pool : Option PoolName) (maxSize : Nat) :
    ∃ heap', factoryCreate maxSize heap (.newObject pool) = some (some heap.fresh, heap') ∧
      heap.owners heap.fresh = 0 := by
  have unowned := balanced.references_fresh
  obtain ⟨middle, ran, after, same⟩ := balanced.allocate pool
  have none : middle.references [] heap.fresh = 0 := by
    rw [references_nil, owners_congr same]
    exact unowned
  obtain ⟨released, ran', _, _⟩ := after.release (by
    rw [none]
    decide) maxSize
  rw [if_pos none] at ran'
  refine ⟨released.push (some heap.fresh), ?_, unowned⟩
  show ((heap.allocate pool).2.addRef heap.fresh >>= _) = _
  rw [ran]
  show (middle.release maxSize heap.fresh >>= _) = _
  rw [ran']
  rfl

/-- What a step leaves balanced counts the owners as long as 32 bits hold them. -/
theorem countsOwners_of_balanced {call : OwnerCall} (allowed : ∀ route, call = .create route → route.Balances)
    (after : Balanced [] heap') (goes : LastOwnerGoes heap suicide heap') :
    CountsOwners heap call suicide heap' ↔ Moderate heap call suicide heap' := by
  constructor
  · rintro ⟨counts, _⟩
    refine ⟨allowed, ?_⟩
    intro address
    by_cases unowned : heap'.owners address = 0
    · rw [unowned]
      decide
    · obtain ⟨object, found⟩ := after.present unowned
      have counted := counts address object found
      have bound := Int32.toInt_lt object.counter
      omega
  · rintro ⟨_, small⟩
    refine ⟨?_, goes⟩
    intro address object found
    rw [after.counter found, references_nil]
    exact Int32.toInt_ofNat_of_lt (small address)

theorem create_balances (balanced : Balanced [] heap) {route : Route} (balances : route.Balances)
    (created : create maxSize heap route = some (suicide, heap')) :
    Balanced [] heap' ∧ LastOwnerGoes heap suicide heap' := by
  have fromDelegate : ∀ kind, heap.GivesReference (delegate heap kind) →
      factoryCreate maxSize heap kind = some (suicide, heap') →
        Balanced [] heap' ∧ LastOwnerGoes heap suicide heap' := by
    intro kind gives created
    obtain ⟨_, made, after, more⟩ := factoryCreate_of_gives gives maxSize
    cases made.symm.trans created
    exact ⟨after, lastOwnerGoes_none more⟩
  cases route with
  | factoryCreate kind =>
    cases kind with
    | defaultDelegate pool => exact fromDelegate (.defaultDelegate pool) (defaultDelegate_gives balanced pool) created
    | createFromPoolRaw pool => exact fromDelegate (.createFromPoolRaw pool) (createFromPoolRaw_gives balanced pool) created
    | newObject pool => exact absurd balances id
  | _ => exact absurd balances id

/-- Any other route leaves a counter that is not the number of owners, or commits suicide
on an object that had none. -/
theorem create_unbalanced (balanced : Balanced [] heap) {route : Route} (unbalanced : ¬ route.Balances)
    (created : create maxSize heap route = some (suicide, heap')) :
    ¬ CountsOwners heap (.create route) suicide heap' := by
  have fromPool : ∀ pool, (newFromPool heap pool).map (fun heap => (none, heap)) = some (suicide, heap') →
      ¬ CountsOwners heap (.create route) suicide heap' := by
    intro pool created
    obtain ⟨address, _, made, after, one⟩ := newFromPool_eq balanced pool
    rw [made] at created
    cases created
    exact not_countsOwners after one
  cases route with
  | createFromPool pool => exact fromPool pool created
  | newPlanningAction => exact fromPool .planningAction created
  | newPlanner => exact fromPool .planner created
  | newFunctionStateMeter => exact fromPool .functionStateMeter created
  | newComparerStateMeter => exact fromPool .comparerStateMeter created
  | newPath => exact fromPool .path created
  | factoryCreate kind =>
    cases kind with
    | defaultDelegate pool => exact absurd trivial unbalanced
    | createFromPoolRaw pool => exact absurd trivial unbalanced
    | newObject pool =>
      obtain ⟨_, made, unowned⟩ := factoryCreate_newObject balanced pool maxSize
      cases made.symm.trans created
      intro counts
      have lost := ((counts.2 heap.fresh).mp rfl).1
      rw [unowned] at lost
      cases lost

/-- From a balanced heap in which no object has 2^31 owners, a step counts the owners
exactly if it is moderate, and the heap stays balanced then. -/
theorem countsOwners_iff (balanced : Balanced [] heap) (small : ∀ other, heap.owners other < 2 ^ 31)
    {call : OwnerCall} (ran : heap.step maxSize call = some (suicide, heap')) :
    (CountsOwners heap call suicide heap' ↔ Moderate heap call suicide heap') ∧
      (Moderate heap call suicide heap' → Balanced [] heap') := by
  cases call with
  | pointer call =>
    obtain ⟨after, goes⟩ := balanced.pointerStep small ran
    exact ⟨countsOwners_of_balanced (fun _ same => by cases same) after goes, fun _ => after⟩
  | create route =>
    by_cases balances : route.Balances
    · obtain ⟨after, goes⟩ := create_balances balanced balances ran
      refine ⟨countsOwners_of_balanced ?_ after goes, fun _ => after⟩
      intro other same
      cases same
      exact balances
    · have immoderate : ¬ Moderate heap (.create route) suicide heap' := fun moderate =>
        balances (moderate.1 route rfl)
      have fails := create_unbalanced balanced balances ran
      exact ⟨iff_of_false fails immoderate, fun moderate => absurd moderate immoderate⟩

/-- In a run, every counter is the number of owners after every step, and `suicide()`
runs exactly when a last owner goes, exactly if every object is created by a
factory with a reference of its delegate and never has 2^31 owners. -/
theorem allSteps_countsOwners_iff (maxSize : Nat) (calls : List OwnerCall) :
    AllSteps (step maxSize) CountsOwners (new : CountedHeap PoolName) calls ↔
      AllSteps (step maxSize) Moderate (new : CountedHeap PoolName) calls := by
  apply allSteps_iff fun heap => Balanced [] heap ∧ ∀ other, heap.owners other < 2 ^ 31
  · rintro heap call suicide heap' ⟨balanced, small⟩ ran
    exact (countsOwners_iff balanced small ran).1
  · rintro heap call suicide heap' ⟨balanced, small⟩ ran moderate
    exact ⟨(countsOwners_iff balanced small ran).2 moderate, moderate.2⟩
  · refine ⟨balanced_new, ?_⟩
    intro other
    exact Nat.two_pow_pos 31

/-- A path from `newPath` has one owner and counts two. -/
theorem allSteps_countsOwners_fails :
    ¬ AllSteps (step 512) CountsOwners (new : CountedHeap PoolName) [.create .newPath] := by
  intro all
  obtain ⟨counts, _⟩ := ((allSteps_cons rfl).mp all).1
  exact absurd (counts 0 _ rfl) (by decide)

end Heap

end Goap
