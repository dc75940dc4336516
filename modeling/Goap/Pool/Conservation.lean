import Goap.Foundation.ObjectPool
import Mathlib.Data.List.Nodup
import Mathlib.Data.List.Range

/-! `ReuseObjectPool` as its users share it: the sections under the mutex are single
steps, and what happens outside of it may be interrupted anywhere. -/

namespace Goap

open Foundation
open scoped List

/-- How far a handed-out object is on its way back, and which user's `recycle` takes
it there. -/
inductive Stage (U : Type) where
  | held
  | clearing (caller : U)
  | returning (caller : U)
  | deleting (caller : U)
  deriving DecidableEq

/-- The objects are numbered as they are allocated. An object is in use until it is
back in the pool or deleted. -/
structure SharedPool (U : Type) where
  allocated : Nat
  inUse : List (U × Nat)
  stage : Nat → Stage U
  queue : List Nat
  deleted : List Nat
  maxSize : Nat
  avoidedAllocations : Nat
  /-- The users whose `createRaw` found the pool empty and has left the lock. -/
  allocating : List U

/-- `createRaw` is followed by `newInstance` where the pool was empty; `recycle` by
`clearObject`, by `giveBack` and, where the pool was full, by `delete`. -/
inductive SharedStep where
  | createRaw
  | newInstance
  | recycle (object : Nat)
  | clearObject (object : Nat)
  | giveBack (object : Nat)
  | delete (object : Nat)
  | clear
  | setMaxSize (maxSize : Nat)

namespace SharedPool

variable {U : Type} [DecidableEq U]

def new (maxSize : Nat) : SharedPool U := ⟨0, [], fun _ => .held, [], [], maxSize, 0, []⟩

def objectsInUse (pool : SharedPool U) : List Nat := pool.inUse.map Prod.snd

def takeBack (pool : SharedPool U) (object : Nat) : SharedPool U :=
  { pool with
    inUse := pool.inUse.filter fun holding => holding.2 ≠ object
    stage := Function.update pool.stage object .held }

def enter (pool : SharedPool U) (object : Nat) (stage : Stage U) : SharedPool U :=
  { pool with stage := Function.update pool.stage object stage }

/-- One atomic step of a user. It is undefined where no call of the user is at that
point, and for an object that is not handed out or whose `recycle` was called already. -/
def step (pool : SharedPool U) (user : U) : SharedStep → Option (SharedPool U)
  | .createRaw =>
    match pool.queue with
    | [] => some { pool with allocating := user :: pool.allocating }
    | object :: queue => some
      { pool with
        inUse := (user, object) :: pool.inUse
        queue
        avoidedAllocations := pool.avoidedAllocations + 1 }
  | .newInstance =>
    if user ∈ pool.allocating then some
      { pool with
        allocated := pool.allocated + 1
        inUse := (user, pool.allocated) :: pool.inUse
        allocating := pool.allocating.erase user }
    else none
  | .recycle object =>
    if object ∈ pool.objectsInUse ∧ pool.stage object = .held then some (pool.enter object (.clearing user)) else none
  | .clearObject object =>
    if pool.stage object = .clearing user then some (pool.enter object (.returning user)) else none
  | .giveBack object =>
    if pool.stage object = .returning user then
      if pool.queue.length < pool.maxSize then
        some { pool.takeBack object with queue := pool.queue ++ [object] }
      else some (pool.enter object (.deleting user))
    else none
  | .delete object =>
    if pool.stage object = .deleting user then
      some { pool.takeBack object with deleted := object :: pool.deleted }
    else none
  | .clear => some { pool with queue := [], deleted := pool.queue ++ pool.deleted, avoidedAllocations := 0 }
  | .setMaxSize maxSize => some { pool with maxSize }

def run (pool : SharedPool U) (steps : List (U × SharedStep)) : Option (SharedPool U) :=
  steps.foldlM (fun pool (user, step) => pool.step user step) pool

/-- The largest maximum after some steps, where it was `largest` before them. -/
def largestMaximum (largest : Nat) : List (U × SharedStep) → Nat
  | [] => largest
  | (_, .setMaxSize maxSize) :: steps => largestMaximum (max largest maxSize) steps
  | _ :: steps => largestMaximum largest steps

/-- Where the objects are: every one that was allocated is in one place and there once,
and what is on its way back is in use. -/
structure Conserved (pool : SharedPool U) : Prop where
  places : pool.objectsInUse ++ pool.queue ++ pool.deleted ~ List.range pool.allocated
  leaving : ∀ object, pool.stage object ≠ .held → object ∈ pool.objectsInUse

/-- The pool is not larger than its maximum has ever been. -/
def Within (pool : SharedPool U) (largest : Nat) : Prop :=
  pool.queue.length ≤ largest ∧ pool.maxSize ≤ largest

variable {pool pool' : SharedPool U} {user : U} {object : Nat} {step : SharedStep} {steps : List (U × SharedStep)}

omit [DecidableEq U] in
theorem Conserved.nodup (conserved : pool.Conserved) : (pool.objectsInUse ++ pool.queue ++ pool.deleted).Nodup :=
  conserved.places.nodup_iff.mpr List.nodup_range

omit [DecidableEq U] in
theorem Conserved.nodup_objectsInUse (conserved : pool.Conserved) : pool.objectsInUse.Nodup :=
  (List.nodup_append.mp (List.nodup_append.mp conserved.nodup).1).1

omit [DecidableEq U] in
theorem objectsInUse_takeBack (conserved : pool.Conserved) (object : Nat) :
    (pool.takeBack object).objectsInUse = pool.objectsInUse.erase object := by
  rw [conserved.nodup_objectsInUse.erase_eq_filter, objectsInUse, objectsInUse, List.filter_map]
  simp only [takeBack, Function.comp_def, bne]
  congr 2
  funext holding
  simp [beq_eq_decide]

omit [DecidableEq U] in
theorem Conserved.takeBack_leaving (conserved : pool.Conserved) (other : Nat)
    (leaving : (pool.takeBack object).stage other ≠ .held) : other ∈ (pool.takeBack object).objectsInUse := by
  have different : other ≠ object := by
    rintro rfl
    simp [takeBack] at leaving
  have before : pool.stage other ≠ .held := by simpa [takeBack, different] using leaving
  rw [objectsInUse_takeBack conserved]
  exact (List.mem_erase_of_ne different).mpr (conserved.leaving other before)

omit [DecidableEq U] in
theorem Conserved.enter (conserved : pool.Conserved) (inUse : object ∈ pool.objectsInUse) (stage : Stage U) :
    (pool.enter object stage).Conserved := by
  refine ⟨conserved.places, ?_⟩
  intro other leaving
  by_cases same : other = object
  · rw [same]
    exact inUse
  · have before : pool.stage other ≠ .held := by simpa [SharedPool.enter, same] using leaving
    exact conserved.leaving other before

omit [DecidableEq U] in
theorem Conserved.pushed (conserved : pool.Conserved) (inUse : object ∈ pool.objectsInUse) :
    { pool.takeBack object with queue := pool.queue ++ [object] }.Conserved := by
  refine ⟨?_, fun other leaving => conserved.takeBack_leaving other leaving⟩
  have taken := objectsInUse_takeBack conserved object
  calc (pool.takeBack object).objectsInUse ++ (pool.queue ++ [object]) ++ pool.deleted
      = pool.objectsInUse.erase object ++ pool.queue ++ [object] ++ pool.deleted := by
        rw [taken, List.append_assoc _ pool.queue]
    _ ~ object :: (pool.objectsInUse.erase object ++ pool.queue) ++ pool.deleted :=
        (List.perm_append_singleton _ _).append_right _
    _ ~ pool.objectsInUse ++ pool.queue ++ pool.deleted :=
        ((List.perm_cons_erase inUse).symm.append_right _).append_right _
    _ ~ List.range pool.allocated := conserved.places

omit [DecidableEq U] in
theorem Conserved.deletedBy (conserved : pool.Conserved) (inUse : object ∈ pool.objectsInUse) :
    { pool.takeBack object with deleted := object :: pool.deleted }.Conserved := by
  refine ⟨?_, fun other leaving => conserved.takeBack_leaving other leaving⟩
  have taken := objectsInUse_takeBack conserved object
  calc (pool.takeBack object).objectsInUse ++ pool.queue ++ object :: pool.deleted
      = pool.objectsInUse.erase object ++ pool.queue ++ object :: pool.deleted := by rw [taken]
    _ ~ object :: (pool.objectsInUse.erase object ++ pool.queue) ++ pool.deleted := List.perm_middle
    _ ~ pool.objectsInUse ++ pool.queue ++ pool.deleted :=
        ((List.perm_cons_erase inUse).symm.append_right _).append_right _
    _ ~ List.range pool.allocated := conserved.places

omit [DecidableEq U] in
theorem Conserved.popped (conserved : pool.Conserved) {queue : List Nat} (waiting : pool.queue = object :: queue)
    (user : U) (avoidedAllocations : Nat) :
    { pool with inUse := (user, object) :: pool.inUse, queue, avoidedAllocations }.Conserved := by
  constructor
  · calc object :: pool.objectsInUse ++ queue ++ pool.deleted
        ~ pool.objectsInUse ++ object :: queue ++ pool.deleted := List.perm_middle.symm.append_right _
      _ = pool.objectsInUse ++ pool.queue ++ pool.deleted := by rw [waiting]
      _ ~ List.range pool.allocated := conserved.places
  · intro other leaving
    exact List.mem_cons_of_mem _ (conserved.leaving other leaving)

omit [DecidableEq U] in
theorem Conserved.allocated (conserved : pool.Conserved) (user : U) (allocating : List U) :
    { pool with
      allocated := pool.allocated + 1
      inUse := (user, pool.allocated) :: pool.inUse
      allocating }.Conserved := by
  constructor
  · calc pool.allocated :: pool.objectsInUse ++ pool.queue ++ pool.deleted
        ~ pool.allocated :: List.range pool.allocated := conserved.places.cons _
      _ ~ List.range pool.allocated ++ [pool.allocated] := (List.perm_append_singleton _ _).symm
      _ = List.range (pool.allocated + 1) := List.range_succ.symm
  · intro other leaving
    exact List.mem_cons_of_mem _ (conserved.leaving other leaving)

omit [DecidableEq U] in
theorem Conserved.cleared (conserved : pool.Conserved) :
    { pool with queue := [], deleted := pool.queue ++ pool.deleted, avoidedAllocations := 0 }.Conserved := by
  refine ⟨?_, conserved.leaving⟩
  calc pool.objectsInUse ++ [] ++ (pool.queue ++ pool.deleted)
      = pool.objectsInUse ++ pool.queue ++ pool.deleted := by rw [List.append_nil, List.append_assoc]
    _ ~ List.range pool.allocated := conserved.places

theorem step_conserved (conserved : pool.Conserved) (ran : pool.step user step = some pool') : pool'.Conserved := by
  have inUse : ∀ {object stage}, pool.stage object = stage → stage ≠ .held → object ∈ pool.objectsInUse := by
    rintro object stage rfl leaving
    exact conserved.leaving object leaving
  cases step with
  | createRaw =>
    simp only [SharedPool.step] at ran
    split at ran
    · cases ran
      exact ⟨conserved.places, conserved.leaving⟩
    · rename_i object queue waiting
      cases ran
      exact conserved.popped waiting user _
  | newInstance =>
    obtain ⟨_, done⟩ := Option.ite_none_right_eq_some.mp ran
    cases done
    exact conserved.allocated user _
  | recycle object =>
    obtain ⟨⟨held, _⟩, done⟩ := Option.ite_none_right_eq_some.mp ran
    cases done
    exact conserved.enter held _
  | clearObject object =>
    obtain ⟨clearing, done⟩ := Option.ite_none_right_eq_some.mp ran
    cases done
    exact conserved.enter (inUse clearing nofun) _
  | giveBack object =>
    obtain ⟨returning, later⟩ := Option.ite_none_right_eq_some.mp ran
    have held := inUse returning nofun
    split at later
    · cases later
      exact conserved.pushed held
    · cases later
      exact conserved.enter held _
  | delete object =>
    obtain ⟨deleting, done⟩ := Option.ite_none_right_eq_some.mp ran
    cases done
    exact conserved.deletedBy (inUse deleting nofun)
  | clear =>
    cases ran
    exact conserved.cleared
  | setMaxSize maxSize =>
    cases ran
    exact ⟨conserved.places, conserved.leaving⟩

/-- The test of the size and the push are one step, so no other push comes between. -/
theorem step_within {largest : Nat} (within : pool.Within largest) (ran : pool.step user step = some pool') :
    pool'.Within (largestMaximum largest [(user, step)]) := by
  obtain ⟨small, maximum⟩ := within
  cases step with
  | createRaw =>
    simp only [SharedPool.step] at ran
    split at ran
    · cases ran
      exact ⟨small, maximum⟩
    · rename_i object queue waiting
      cases ran
      rw [waiting, List.length_cons] at small
      exact ⟨Nat.le_of_succ_le small, maximum⟩
  | newInstance | recycle object | clearObject object | delete object =>
    obtain ⟨_, done⟩ := Option.ite_none_right_eq_some.mp ran
    cases done
    exact ⟨small, maximum⟩
  | giveBack object =>
    obtain ⟨_, later⟩ := Option.ite_none_right_eq_some.mp ran
    split at later
    · rename_i room
      cases later
      refine ⟨?_, maximum⟩
      rw [List.length_append, List.length_singleton]
      exact room.trans_le maximum
    · cases later
      exact ⟨small, maximum⟩
  | clear =>
    cases ran
    exact ⟨Nat.zero_le _, maximum⟩
  | setMaxSize maxSize =>
    cases ran
    exact ⟨small.trans (le_max_left _ _), le_max_right _ _⟩

omit [DecidableEq U] in
theorem largestMaximum_cons (largest : Nat) (first : U × SharedStep) (steps : List (U × SharedStep)) :
    largestMaximum largest (first :: steps) = largestMaximum (largestMaximum largest [first]) steps := by
  obtain ⟨user, step⟩ := first
  cases step <;> rfl

theorem run_conserved {largest : Nat} (conserved : pool.Conserved) (within : pool.Within largest)
    (ran : pool.run steps = some pool') : pool'.Conserved ∧ pool'.Within (largestMaximum largest steps) := by
  induction steps generalizing pool largest with
  | nil =>
    cases ran
    exact ⟨conserved, within⟩
  | cons first steps ih =>
    obtain ⟨middle, stepped, later⟩ := Option.bind_eq_some_iff.mp ran
    rw [largestMaximum_cons]
    exact ih (step_conserved conserved stepped) (step_within within stepped) later

omit [DecidableEq U] in
theorem conserved_new (maxSize : Nat) : (SharedPool.new maxSize : SharedPool U).Conserved :=
  ⟨.nil, fun _ leaving => absurd rfl leaving⟩

/-- After any steps of any users, every object that was allocated is in use, in the pool
or deleted, and there once; no two users hold one object; and the pool is not larger
than its largest maximum so far. -/
theorem reuseObjectPool_conserves (maxSize : Nat) (steps : List (U × SharedStep)) (pool : SharedPool U)
    (ran : (SharedPool.new maxSize).run steps = some pool) :
    pool.objectsInUse ++ pool.queue ++ pool.deleted ~ List.range pool.allocated ∧
      (∀ user user' object, (user, object) ∈ pool.inUse → (user', object) ∈ pool.inUse → user = user') ∧
      pool.queue.length ≤ largestMaximum maxSize steps := by
  obtain ⟨conserved, within⟩ := run_conserved (conserved_new maxSize) ⟨Nat.zero_le _, le_refl maxSize⟩ ran
  refine ⟨conserved.places, ?_, within.1⟩
  intro user user' object first second
  have unique := List.inj_on_of_nodup_map conserved.nodup_objectsInUse first second rfl
  exact congrArg Prod.fst unique

/-- Two users get an object each while the maximum is one. Their calls of `recycle`
overlap, and the second object is deleted. -/
theorem reuseObjectPool_conserves_two :
    ∃ pool : SharedPool Bool, pool.objectsInUse ++ pool.queue ++ pool.deleted ~ List.range pool.allocated ∧
      pool.queue = [1] ∧ pool.deleted = [0] ∧ pool.queue.length ≤ 1 := by
  obtain ⟨places, _, small⟩ := reuseObjectPool_conserves 1
    [(false, .createRaw), (true, .createRaw), (true, .newInstance), (false, .newInstance),
      (false, .recycle 1), (true, .recycle 0), (false, .clearObject 1), (true, .clearObject 0),
      (false, .giveBack 1), (true, .giveBack 0), (true, .delete 0)] _ rfl
  exact ⟨_, places, rfl, rfl, small⟩

/-- The pool as one user sees it who is never interrupted, next to the objects that
this user was handed. -/
def sequential (pool : SharedPool U) (objects : List (Option Nat)) : ObjectPool Nat :=
  ⟨objects, pool.queue, pool.maxSize, pool.avoidedAllocations⟩

def numbered (pool : SharedPool U) : PooledClass Nat Empty Empty := ⟨pool.allocated, id, fun _ call => nomatch call⟩

/-- The steps of a whole `createRaw`. -/
def createRawSteps (pool : SharedPool U) (user : U) : List (U × SharedStep) :=
  match pool.queue with
  | [] => [(user, .createRaw), (user, .newInstance)]
  | _ :: _ => [(user, .createRaw)]

/-- The steps of a whole `recycle`. -/
def recycleSteps (pool : SharedPool U) (user : U) (object : Nat) : List (U × SharedStep) :=
  [(user, .recycle object), (user, .clearObject object), (user, .giveBack object)] ++
    if pool.queue.length < pool.maxSize then [] else [(user, .delete object)]

theorem run_createRawSteps (pool : SharedPool U) (user : U) (objects : List (Option Nat)) :
    ∃ object pool', pool.run (pool.createRawSteps user) = some pool' ∧
      pool'.inUse = (user, object) :: pool.inUse ∧
      (pool.sequential objects).createRaw pool.numbered = (object, pool'.sequential (objects ++ [some object])) := by
  obtain ⟨allocated, inUse, stage, queue, deleted, maxSize, avoidedAllocations, allocating⟩ := pool
  cases queue with
  | nil =>
    let pool' : SharedPool U :=
      ⟨allocated + 1, (user, allocated) :: inUse, stage, [], deleted, maxSize, avoidedAllocations, allocating⟩
    refine ⟨allocated, pool', ?_, rfl, rfl⟩
    simp [createRawSteps, run, SharedPool.step, pool']
  | cons object queue => exact ⟨object, _, rfl, rfl, rfl⟩

theorem run_recycleSteps (pool : SharedPool U) (user : U) (object : Nat) (inUse : object ∈ pool.objectsInUse)
    (held : pool.stage object = .held) (objects : List (Option Nat)) (number : Nat) :
    ∃ pool', pool.run (pool.recycleSteps user object) = some pool' ∧
      pool'.inUse = pool.inUse.filter (fun holding => holding.2 ≠ object) ∧
      (pool.sequential objects).recycle pool.numbered number object = pool'.sequential (objects.set number none) := by
  by_cases room : pool.queue.length < pool.maxSize
  · refine ⟨{ ((pool.enter object (.clearing user)).enter object (.returning user)).takeBack object with
      queue := pool.queue ++ [object] }, ?_, rfl, ?_⟩
    · simp [recycleSteps, run, SharedPool.step, enter, inUse, held, room]
    · simp [sequential, ObjectPool.recycle, takeBack, enter, numbered, room]
  · refine ⟨{ (((pool.enter object (.clearing user)).enter object (.returning user)).enter object
      (.deleting user)).takeBack object with deleted := object :: pool.deleted }, ?_, rfl, ?_⟩
    · simp [recycleSteps, run, SharedPool.step, enter, inUse, held, room]
    · simp [sequential, ObjectPool.recycle, takeBack, enter, room]

end SharedPool

end Goap
