import Goap.Foundation.BucketTable
import Goap.State.CachedState

namespace Goap

open FloatOps Foundation

variable {F : Type} [FloatOps F]

/-- `State` with the buckets of its `unordered_map`, in the order of whose chain it is gone over. -/
structure TableState (F : Type) [FloatOps F] where
  table : BucketTable (StateValue F) (StateValue F)
  cost : F
  cachedHash : UInt64

/-- The public operations of `State`; `assign(const State &)` takes the buckets over as well. -/
inductive TableCall (F : Type) [FloatOps F] where
  | assign (other : TableState F)
  | call (call : StateCall F) (noAssign : ∀ other, call ≠ .assign (some other))

namespace TableState

/-- The hash of a key, as far as buckets go. -/
def bucketHash (key : StateValue F) : Nat := key.hash.toNat

/-- `State()`. -/
def new : TableState F := ⟨.new, lit 1, 0⟩

def clear (this : TableState F) : TableState F := ⟨this.table.clear, lit 1, 0⟩

variable (growth : Growth)

def put (this : TableState F) (key value : StateValue F) : TableState F :=
  ⟨this.table.insert growth bucketHash StateValue.keyMatch key value, this.cost, 0⟩

/-- `put` of every pair in turn. -/
def putAll (this : TableState F) (pairs : List (StateValue F × StateValue F)) : TableState F :=
  pairs.foldl (fun this pair => this.put growth pair.1 pair.2) this

def find? (this : TableState F) (key : StateValue F) : Option (StateValue F) :=
  HashedList.lookup StateValue.keyMatch key this.table.nodes

/-- `add` and `mul`: `+=` to the value under a key. -/
def add (this : TableState F) (key value : StateValue F) : Option (StateAnswer F × TableState F) :=
  (this.find? key).map fun current => (.done, this.put growth key (current.add value))

/-- `at(int64_t)`. -/
def atInt64 (this : TableState F) (idx : Int) : StateValue F × StateValue F :=
  if idx < 0 ∨ (this.table.nodes.length : Int) ≤ idx then (⟨[]⟩, ⟨[]⟩)
  else this.table.nodes.getD idx.toNat (⟨[]⟩, ⟨[]⟩)

def equals (this : TableState F) (other : State F) : Bool :=
  this.table.nodes.length == other.size && this.table.nodes.all fun entry =>
    match other.find? entry.1 with
    | none => false
    | some value => entry.2.equals value

def computedHash (this : TableState F) : UInt64 :=
  let h := this.table.nodes.foldl (fun h entry => h ^^^ entry.1.hash ^^^ entry.2.hash) (BasicMath.hash [this.cost])
  if h = 0 then 1 else h

def hash (this : TableState F) : UInt64 × TableState F :=
  if this.cachedHash = 0 then (this.computedHash, { this with cachedHash := this.computedHash })
  else (this.cachedHash, this)

/-- One call; `none` where the source dereferences a null value. -/
def step (this : TableState F) : TableCall F → Option (StateAnswer F × TableState F)
  | .assign other => some (.done, { other with cachedHash := 0 })
  | .call (.put key value) _ => some (.done, this.put growth key value)
  | .call (.add key value) _ => this.add growth key value
  | .call (.mul key value) _ => this.add growth key value
  | .call (.remove key) _ =>
    some (.done, ⟨this.table.erase StateValue.keyMatch key, this.cost, 0⟩)
  | .call (.assign (some other)) noAssign => absurd rfl (noAssign other)
  | .call (.assign none) _ => some (.threw (.runtimeError "assign"), this)
  | .call (.assignMap pairs) _ => some (.done, putAll growth { this with table := this.table.clear } pairs)
  | .call (.merge other) _ => some (.done, this.putAll growth other.data)
  | .call (.cost cost) _ => some (.done, ⟨this.table, cost, 0⟩)
  | .call (.addCost cost) _ => some (.done, ⟨this.table, this.cost + cost, 0⟩)
  | .call (.mulCost cost) _ => some (.done, ⟨this.table, this.cost * cost, 0⟩)
  | .call .clear _ => some (.done, this.clear)
  | .call .getCost _ => some (.number this.cost, this)
  | .call .size _ => some (.size this.table.nodes.length, this)
  | .call .empty _ => some (.truth this.table.nodes.isEmpty, this)
  | .call .keys _ => some (.keys (this.table.nodes.map Prod.fst), this)
  | .call (.find key) _ => some (.value (this.find? key), this)
  | .call (.atInt64 idx) _ => some (.pair (this.atInt64 idx), this)
  | .call .iterator _ => some (.pairs this.table.nodes, this)
  | .call (.equals other) _ => some (.truth (this.equals other), this)
  | .call .hash _ => some (.hash this.hash.1, this.hash.2)

/-- What is the same of two states in all but the buckets, as long as these are few. -/
inductive SameButBuckets : TableState F → TableState F → Prop where
  | equal (this : TableState F) : SameButBuckets this this
  | empty {this other : TableState F} (nodes : this.table.nodes = []) (nodes' : other.table.nodes = [])
      (small : this.table.Small growth) (small' : other.table.Small growth) (cost : this.cost = other.cost)
      (hash : this.cachedHash = other.cachedHash) : SameButBuckets this other

variable {growth} {this other : TableState F}

theorem put_perm (this : TableState F) (key value : StateValue F) :
    (this.put growth key value).table.nodes.Perm (HashedList.insert StateValue.keyMatch key value this.table.nodes) :=
  BucketTable.insert_perm key value this.table

theorem SameButBuckets.putAll (same : SameButBuckets growth this other) (pairs : List (StateValue F × StateValue F)) :
    SameButBuckets growth (this.putAll growth pairs) (other.putAll growth pairs) := by
  cases same with
  | equal => exact .equal _
  | empty nodes nodes' small small' cost hash =>
    cases pairs with
    | nil => exact .empty nodes nodes' small small' cost hash
    | cons pair rest =>
      have put : this.put growth pair.1 pair.2 = other.put growth pair.1 pair.2 := by
        rw [TableState.put, TableState.put, BucketTable.insert_small nodes small, BucketTable.insert_small nodes' small', cost]
      rw [TableState.putAll, TableState.putAll, List.foldl_cons, List.foldl_cons, put]
      exact .equal _

/-- Few buckets show in no answer to a call, and do not after it. -/
theorem SameButBuckets.step (same : SameButBuckets growth this other) (call : TableCall F) :
    this.step growth call = none ∧ other.step growth call = none ∨ ∃ answer this' other',
      this.step growth call = some (answer, this') ∧ other.step growth call = some (answer, other') ∧
        SameButBuckets growth this' other' := by
  cases same with
  | equal =>
    cases ran : this.step growth call with
    | none => exact .inl ⟨rfl, rfl⟩
    | some result => exact .inr ⟨_, _, _, rfl, rfl, .equal _⟩
  | empty nodes nodes' small small' cost hash =>
    have both : SameButBuckets growth this other := .empty nodes nodes' small small' cost hash
    have found (key : StateValue F) : this.find? key = none ∧ other.find? key = none := by
      rw [find?, find?, nodes, nodes']
      exact ⟨rfl, rfl⟩
    cases call with
    | assign state => exact .inr ⟨_, _, _, rfl, rfl, .equal _⟩
    | call call noAssign =>
      cases call with
      | put key value => exact .inr ⟨_, _, _, rfl, rfl, both.putAll [(key, value)]⟩
      | add key value | mul key value =>
        exact .inl ⟨by simp [TableState.step, add, (found key).1], by simp [TableState.step, add, (found key).2]⟩
      | remove key =>
        refine .inr ⟨_, _, _, rfl, rfl, .empty ?_ ?_ small small' cost rfl⟩
        · simp [BucketTable.erase, HashedList.erase, nodes]
        · simp [BucketTable.erase, HashedList.erase, nodes']
      | assign state =>
        cases state with
        | none => exact .inr ⟨_, _, _, rfl, rfl, both⟩
        | some state => exact absurd rfl (noAssign state)
      | assignMap pairs =>
        have cleared : SameButBuckets growth { this with table := this.table.clear } { other with table := other.table.clear } :=
          .empty rfl rfl small small' cost hash
        exact .inr ⟨_, _, _, rfl, rfl, cleared.putAll pairs⟩
      | merge state => exact .inr ⟨_, _, _, rfl, rfl, both.putAll state.data⟩
      | cost cost' => exact .inr ⟨_, _, _, rfl, rfl, .empty nodes nodes' small small' rfl rfl⟩
      | addCost cost' =>
        exact .inr ⟨_, _, _, rfl, rfl, .empty nodes nodes' small small' (congrArg (· + cost') cost) rfl⟩
      | mulCost cost' =>
        exact .inr ⟨_, _, _, rfl, rfl, .empty nodes nodes' small small' (congrArg (· * cost') cost) rfl⟩
      | clear => exact .inr ⟨_, _, _, rfl, rfl, .empty rfl rfl small small' rfl rfl⟩
      | getCost => exact .inr ⟨.number other.cost, _, _, by rw [TableState.step, cost], rfl, both⟩
      | size => exact .inr ⟨.size 0, _, _, by rw [TableState.step, nodes]; rfl, by rw [TableState.step, nodes']; rfl, both⟩
      | empty => exact .inr ⟨.truth true, _, _, by rw [TableState.step, nodes]; rfl, by rw [TableState.step, nodes']; rfl, both⟩
      | keys => exact .inr ⟨.keys [], _, _, by rw [TableState.step, nodes]; rfl, by rw [TableState.step, nodes']; rfl, both⟩
      | find key =>
        exact .inr ⟨.value none, _, _, by rw [TableState.step, (found key).1], by rw [TableState.step, (found key).2], both⟩
      | atInt64 idx =>
        have pair : this.atInt64 idx = other.atInt64 idx := by rw [atInt64, atInt64, nodes, nodes']
        exact .inr ⟨_, _, _, by rw [TableState.step, pair], rfl, both⟩
      | iterator =>
        exact .inr ⟨.pairs [], _, _, by rw [TableState.step, nodes], by rw [TableState.step, nodes'], both⟩
      | equals state =>
        have truth : this.equals state = other.equals state := by rw [equals, equals, nodes, nodes']
        exact .inr ⟨_, _, _, by rw [TableState.step, truth], rfl, both⟩
      | hash =>
        have computed : this.computedHash = other.computedHash := by rw [computedHash, computedHash, nodes, nodes', cost]
        have answer : this.hash.1 = other.hash.1 := by
          rw [TableState.hash, TableState.hash, hash, computed]
          split <;> rfl
        refine .inr ⟨_, _, _, by rw [TableState.step, answer], rfl, ?_⟩
        rw [TableState.hash, TableState.hash, hash, computed]
        split
        · exact .empty nodes nodes' small small' cost rfl
        · exact .empty nodes nodes' small small' cost hash

end TableState

end Goap
