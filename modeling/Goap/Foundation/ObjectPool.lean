import Goap.Foundation.Run

/-! A pool that hands cleared objects out again, next to whatever its users do with
the objects they hold. -/

namespace Goap.Foundation

/-- A class of objects that answer calls, with the method that empties an object for its next user. -/
structure PooledClass (T C A : Type) where
  construct : T
  clear : T → T
  step : T → C → Option (A × T)

/-- The object answers every sequence of calls as a newly constructed one does. -/
def PooledClass.AsNew {T C A : Type} (pooled : PooledClass T C A) (object : T) : Prop :=
  ∀ calls, answers pooled.step object calls = answers pooled.step pooled.construct calls

/-- A pool and the objects it has handed out, numbered in that order; an object that
was given back leaves `none` at its number. -/
structure ObjectPool (T : Type) where
  objects : List (Option T)
  queue : List T
  maxSize : Nat
  avoidedAllocations : Nat

inductive PoolCall (C : Type) where
  | createRaw
  | use (number : Nat) (call : C)
  | recycle (number : Nat)
  | setMaxSize (maxSize : Nat)
  | clear
  | avoidedAllocations

inductive PoolAnswer (T A : Type) where
  | done
  | created (object : T)
  | answered (answer : A)
  | avoided (allocations : Nat)

namespace ObjectPool

variable {T C A : Type} (pooled : PooledClass T C A) (pool : ObjectPool T)

def new (maxSize : Nat) : ObjectPool T := ⟨[], [], maxSize, 0⟩

/-- Hands out the object that has waited longest, or a new one. -/
def createRaw : T × ObjectPool T :=
  match pool.queue with
  | [] => (pooled.construct, { pool with objects := pool.objects ++ [some pooled.construct] })
  | object :: queue => (object,
      { pool with
        objects := pool.objects ++ [some object]
        queue
        avoidedAllocations := pool.avoidedAllocations + 1 })

def recycle (number : Nat) (object : T) : ObjectPool T :=
  { pool with
    objects := pool.objects.set number none
    queue := if pool.queue.length < pool.maxSize then pool.queue ++ [pooled.clear object] else pool.queue }

/-- One call of a user; `none` for an object that is not the user's (any more) and
where the object's own call is undefined. -/
def step : PoolCall C → Option (PoolAnswer T A × ObjectPool T)
  | .createRaw => some (.created (pool.createRaw pooled).1, (pool.createRaw pooled).2)
  | .use number call => do
    let object ← (pool.objects[number]?).join
    let (answer, object) ← pooled.step object call
    return (.answered answer, { pool with objects := pool.objects.set number (some object) })
  | .recycle number => do
    let object ← (pool.objects[number]?).join
    return (.done, pool.recycle pooled number object)
  | .setMaxSize maxSize => some (.done, { pool with maxSize })
  | .clear => some (.done, { pool with queue := [], avoidedAllocations := 0 })
  | .avoidedAllocations => some (.avoided pool.avoidedAllocations, pool)

/-- Every object that waits in the pool is as good as new. -/
def Fresh : Prop := ∀ object ∈ pool.queue, pooled.AsNew object

/-- What a pool promises of one step: it hands out, and keeps for later, only objects
that are as good as new. -/
def HandsOutNew (_ : ObjectPool T) (_ : PoolCall C) (answer : PoolAnswer T A) (pool' : ObjectPool T) : Prop :=
  (∀ object, answer = .created object → pooled.AsNew object) ∧ pool'.Fresh pooled

/-- Whatever the pool takes back satisfies the condition. -/
def TakesBack (fit : T → Prop) (pool : ObjectPool T) (call : PoolCall C) (_ : PoolAnswer T A) (_ : ObjectPool T) :
    Prop :=
  ∀ number object, call = .recycle number → (pool.objects[number]?).join = some object →
    pool.queue.length < pool.maxSize → fit object

variable {pooled pool}

theorem takesBack_of_ne {fit : T → Prop} {call : PoolCall C} {answer : PoolAnswer T A} {pool' : ObjectPool T}
    (other : ∀ number, call ≠ .recycle number) : pool.TakesBack fit call answer pool' :=
  fun number _ same => absurd same (other number)

theorem fresh_createRaw (fresh : pool.Fresh pooled) :
    pooled.AsNew (pool.createRaw pooled).1 ∧ (pool.createRaw pooled).2.Fresh pooled := by
  obtain ⟨objects, queue, maxSize, avoidedAllocations⟩ := pool
  cases queue with
  | nil => exact ⟨fun _ => rfl, fresh⟩
  | cons object queue =>
    exact ⟨fresh object (by simp), fun waiting member => fresh waiting (List.mem_cons_of_mem _ member)⟩

theorem fresh_recycle_iff (fresh : pool.Fresh pooled) (number : Nat) (object : T) :
    (pool.recycle pooled number object).Fresh pooled ↔
      (pool.queue.length < pool.maxSize → pooled.AsNew (pooled.clear object)) := by
  rw [Fresh, recycle]
  split
  · rename_i room
    simp only [room, true_implies]
    constructor
    · intro all
      exact all _ (by simp)
    · intro last waiting member
      rcases List.mem_append.mp member with old | added
      · exact fresh waiting old
      · rwa [List.mem_singleton.mp added]
  · rename_i full
    constructor
    · exact fun _ room => absurd room full
    · exact fun _ => fresh

/-- Where clearing makes an object as good as new exactly under a condition, a pool
with fresh objects keeps its promise in a step exactly if what it takes back meets
the condition. -/
theorem handsOutNew_iff {fit : T → Prop} (clears : ∀ object, pooled.AsNew (pooled.clear object) ↔ fit object)
    {pool' : ObjectPool T} {call : PoolCall C} {answer : PoolAnswer T A} (fresh : pool.Fresh pooled)
    (ran : pool.step pooled call = some (answer, pool')) :
    pool.HandsOutNew pooled call answer pool' ↔ pool.TakesBack fit call answer pool' := by
  have kept : (∀ number, call ≠ .recycle number) → (∀ object, answer = .created object → pooled.AsNew object) →
      pool'.Fresh pooled → (pool.HandsOutNew pooled call answer pool' ↔ pool.TakesBack fit call answer pool') := by
    intro other created after
    exact iff_of_true ⟨created, after⟩ (takesBack_of_ne other)
  cases call with
  | createRaw =>
    cases ran
    obtain ⟨asNew, after⟩ := fresh_createRaw fresh
    refine kept (fun _ => by simp) ?_ after
    intro object same
    cases same
    exact asNew
  | use number call =>
    obtain ⟨object, held, later⟩ := Option.bind_eq_some_iff.mp ran
    obtain ⟨⟨reply, object'⟩, answered, same⟩ := Option.bind_eq_some_iff.mp later
    cases same
    exact kept (fun _ => by simp) (fun _ same => by cases same) fresh
  | recycle number =>
    obtain ⟨object, held, same⟩ := Option.bind_eq_some_iff.mp ran
    cases same
    have after := fresh_recycle_iff fresh number object
    rw [clears object] at after
    constructor
    · rintro ⟨_, fresh'⟩ number' object' same held'
      cases same
      rw [held] at held'
      cases held'
      exact after.mp fresh'
    · intro takes
      exact ⟨(fun _ same => by cases same), after.mpr (takes number object rfl held)⟩
  | setMaxSize maxSize =>
    cases ran
    exact kept (fun _ => by simp) (fun _ same => by cases same) fresh
  | clear =>
    cases ran
    exact kept (fun _ => by simp) (fun _ same => by cases same) (fun _ member => by cases member)
  | avoidedAllocations =>
    cases ran
    exact kept (fun _ => by simp) (fun _ same => by cases same) fresh

/-- A pool hands out objects as good as new in a whole run exactly if everything it
takes back meets the condition. -/
theorem allSteps_handsOutNew_iff (pooled : PooledClass T C A) (fit : T → Prop)
    (clears : ∀ object, pooled.AsNew (pooled.clear object) ↔ fit object) (maxSize : Nat) (calls : List (PoolCall C)) :
    AllSteps (step pooled) (HandsOutNew pooled) (new maxSize) calls ↔
      AllSteps (step pooled) (TakesBack fit) (new maxSize) calls := by
  apply allSteps_iff (Fresh pooled)
  · intro pool call answer pool' fresh ran
    exact handsOutNew_iff clears fresh ran
  · intro pool call answer pool' fresh ran takes
    exact ((handsOutNew_iff clears fresh ran).mpr takes).2
  · exact fun _ member => by cases member

theorem allSteps_handsOutNew_of (pooled : PooledClass T C A) (fit : T → Prop)
    (clears : ∀ object, fit object → pooled.AsNew (pooled.clear object)) {maxSize : Nat} {calls : List (PoolCall C)}
    (takes : AllSteps (step pooled) (TakesBack fit) (new maxSize) calls) :
    AllSteps (step pooled) (HandsOutNew pooled) (new maxSize) calls := by
  refine (allSteps_handsOutNew_iff pooled (fun object => pooled.AsNew (pooled.clear object)) (fun _ => Iff.rfl)
    maxSize calls).mpr ?_
  refine takes.imp (fun _ => True) ?_ trivial
  intro pool call answer pool' _ _ fitting
  exact ⟨fun number object same held room => clears object (fitting number object same held room), trivial⟩

theorem allSteps_handsOutNew (pooled : PooledClass T C A) (clears : ∀ object, pooled.AsNew (pooled.clear object)) (maxSize : Nat)
    (calls : List (PoolCall C)) : AllSteps (step pooled) (HandsOutNew pooled) (new maxSize) calls := by
  apply allSteps_handsOutNew_of pooled (fun _ => True) fun object _ => clears object
  apply allSteps_of_invariant (fun _ => True) _ trivial
  intro pool call answer pool' _ _
  exact ⟨fun _ _ _ _ _ => trivial, trivial⟩

end ObjectPool

end Goap.Foundation
