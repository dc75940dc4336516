import Goap.Comparer.FunctionStateMeter
import Goap.Foundation.ObjectPool
import Goap.Pool.PooledObjects
import Goap.State.TableState

namespace Goap

open FloatOps Foundation

variable {F : Type} [FloatOps F]

/-- `RecyclableWrapper<StateValue>`. -/
def pooledStateValue : PooledClass (CachedValue F) (ValueCall F) (ValueAnswer F) :=
  ⟨.new ⟨[]⟩, CachedValue.clear, CachedValue.step⟩

/-- `RecyclableWrapper<State>`. -/
def pooledState (growth : Growth) : PooledClass (TableState F) (TableCall F) (StateAnswer F) :=
  ⟨.new, TableState.clear, TableState.step growth⟩

/-- `RecyclableWrapper<Path>`. -/
def pooledPath : PooledClass (PathObject F) (PathMethod F) (PathAnswer F) :=
  ⟨.new, PathObject.clear, PathObject.step⟩

/-- `RecyclableWrapper<PlanningAction>`. -/
def pooledPlanningAction : PooledClass (ActionObject F) (ActionCall F) (ActionAnswer F) :=
  ⟨.new, ActionObject.clear, ActionObject.step⟩

/-- `RecyclableWrapper<FunctionStateMeter>`. -/
def pooledFunctionStateMeter : PooledClass (FunctionStateMeter F) (MeterCall F) (MeterAnswer F) :=
  ⟨.new, FunctionStateMeter.clear, FunctionStateMeter.step⟩

/-- The limit of `ReuseObjectPool`. -/
def poolMaxSize : Nat := 512

/-- A cleared function meter is as good as new exactly when the functions it keeps
are those of a new one. -/
theorem asNew_clear_iff (object : FunctionStateMeter F) :
    pooledFunctionStateMeter.AsNew object.clear ↔ object.HasDefaults := by
  constructor
  · intro asNew
    constructor
    · have asked := asNew [.fnDistance]
      simpa [answers, pooledFunctionStateMeter, FunctionStateMeter.step, FunctionStateMeter.clear,
        FunctionStateMeter.new] using asked
    · have asked := asNew [.fnEnough]
      simpa [answers, pooledFunctionStateMeter, FunctionStateMeter.step, FunctionStateMeter.clear,
        FunctionStateMeter.new] using asked
  · intro defaults calls
    rw [FunctionStateMeter.clear_eq_new_iff.mpr defaults]
    rfl

theorem asNew_clear_of_small (growth : Growth) (object : TableState F) (small : object.table.Small growth) :
    (pooledState growth).AsNew object.clear :=
  answers_eq_of_step (TableState.SameButBuckets growth) (fun _ _ call alike => alike.step call)
    (.empty rfl rfl small (.inl rfl) rfl rfl)

/-- Numbers of buckets as `unordered_map` chooses them. -/
def primeGrowth : Growth where
  next buckets := match buckets with
    | 1 => 13
    | 13 => 29
    | 29 => 59
    | other => 2 * other + 1
  grows buckets := by split <;> omega

def useFirst (call : StateCall ℚ) (noAssign : ∀ other, call ≠ .assign (some other)) : PoolCall (TableCall ℚ) :=
  .use 0 (.call call noAssign)

def numbers (count : Nat) : List (StateValue ℚ × StateValue ℚ) := (List.range count).map fun n => (.scalar n, .scalar 1)

def MeterAnswer.number : MeterAnswer F → Option F
  | .distance (.ok value) => some value
  | _ => none

def keysOf : StateAnswer ℚ → Option (List (StateValue ℚ))
  | .keys keys => some keys
  | _ => none

def threeKeys : List (TableCall ℚ) :=
  [.call (.assignMap [(.scalar 1, .scalar 1), (.scalar 2, .scalar 1), (.scalar 9, .scalar 1)]) (by simp), .call .keys (by simp)]

def oneX : State ℚ := State.new.put (.ofString "x") (.scalar 1)

end Goap
