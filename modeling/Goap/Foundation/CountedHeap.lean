import Mathlib.Algebra.Group.Nat.Defs
import Mathlib.Data.List.Count
import Mathlib.Data.List.Nodup
import Mathlib.Logic.Function.Basic

namespace Goap.Foundation

inductive Phase where
  | inUse
  | waiting
  | deleted
deriving DecidableEq

/-- An object with its counter; a recyclable one knows its pool. -/
structure CountedObject (P : Type) where
  counter : Int32
  pool : Option P
  phase : Phase

/-- The objects by address, the next free address, the objects that wait in each
pool, and the smart pointers of the program. -/
structure CountedHeap (P : Type) where
  objects : Nat → Option (CountedObject P)
  fresh : Nat
  queues : P → List Nat
  pointers : List (Option Nat)

namespace CountedHeap

variable {P : Type} [DecidableEq P]

def new : CountedHeap P := ⟨fun _ => none, 0, fun _ => [], []⟩

/-- The number of live smart pointers to an object. -/
def owners (heap : CountedHeap P) (address : Nat) : Nat := heap.pointers.count (some address)

/-- The owners together with the references that running code holds. -/
def references (heap : CountedHeap P) (held : List Nat) (address : Nat) : Nat :=
  heap.owners address + held.count address

def setObject (heap : CountedHeap P) (address : Nat) (object : CountedObject P) : CountedHeap P :=
  { heap with objects := Function.update heap.objects address (some object) }

def allocate (heap : CountedHeap P) (pool : Option P) : Nat × CountedHeap P :=
  (heap.fresh, { heap.setObject heap.fresh ⟨0, pool, .inUse⟩ with fresh := heap.fresh + 1 })

/-- An object of the pool: the one that has waited longest, or a new one. -/
def createRaw (heap : CountedHeap P) (pool : P) : Option (Nat × CountedHeap P) :=
  match heap.queues pool with
  | [] => some (heap.allocate (some pool))
  | address :: queue => (heap.objects address).map fun object =>
      (address,
        { heap.setObject address { object with phase := .inUse } with
          queues := Function.update heap.queues pool queue })

def object? (heap : CountedHeap P) (address : Nat) : Option (CountedObject P) :=
  (heap.objects address).filter fun object => object.phase ≠ .deleted

/-- `intrusive_ptr_add_ref`; `none` for freed memory. -/
def addRef (heap : CountedHeap P) (address : Nat) : Option (CountedHeap P) :=
  (heap.object? address).map fun object => heap.setObject address { object with counter := object.counter + 1 }

/-- An object whose counter has come to 0: it goes back to its pool while there is
room, or is deleted. -/
def suicide (maxSize : Nat) (heap : CountedHeap P) (address : Nat) (object : CountedObject P) : CountedHeap P :=
  match object.pool with
  | none => heap.setObject address { object with phase := .deleted }
  | some pool =>
    if (heap.queues pool).length < maxSize then
      { heap.setObject address { object with phase := .waiting } with
        queues := Function.update heap.queues pool (heap.queues pool ++ [address]) }
    else heap.setObject address { object with phase := .deleted }

/-- `intrusive_ptr_release`, with the address of the object if it commits suicide. -/
def release (maxSize : Nat) (heap : CountedHeap P) (address : Nat) : Option (Option Nat × CountedHeap P) :=
  (heap.object? address).map fun object =>
    let object := { object with counter := object.counter - 1 }
    if object.counter = 0 then (some address, suicide maxSize heap address object)
    else (none, heap.setObject address object)

/-- Every counter is the number of references, in 32 bits; the objects in use are
those with references, and those that wait in a pool are its own. -/
structure Balanced (held : List Nat) (heap : CountedHeap P) : Prop where
  counter : ∀ {address object}, heap.objects address = some object →
    object.counter = Int32.ofNat (heap.references held address)
  inUse : ∀ {address object}, heap.objects address = some object →
    (object.phase = .inUse ↔ heap.references held address ≠ 0)
  present : ∀ {address}, heap.references held address ≠ 0 → ∃ object, heap.objects address = some object
  unused : ∀ {address}, heap.fresh ≤ address → heap.objects address = none
  queued : ∀ {pool address}, address ∈ heap.queues pool →
    ∃ object, heap.objects address = some object ∧ object.phase = .waiting ∧ object.pool = some pool
  nodup : ∀ pool, (heap.queues pool).Nodup

omit [DecidableEq P] in
theorem balanced_new : Balanced [] (new : CountedHeap P) where
  counter present := by cases present
  inUse present := by cases present
  present referred := absurd rfl referred
  unused _ := rfl
  queued member := by cases member
  nodup _ := .nil

section

variable {heap : CountedHeap P} {held : List Nat} {address : Nat} {object : CountedObject P} {maxSize : Nat}

omit [DecidableEq P]

theorem references_cons (heap : CountedHeap P) (held : List Nat) (address other : Nat) :
    heap.references (address :: held) other = heap.references held other + if address = other then 1 else 0 := by
  rw [references, references, List.count_cons, ← Nat.add_assoc]
  simp

theorem Balanced.object_inUse (balanced : Balanced held heap) (referred : heap.references held address ≠ 0) :
    ∃ object, heap.objects address = some object ∧ heap.object? address = some object ∧ object.phase = .inUse := by
  obtain ⟨object, found⟩ := balanced.present referred
  have phase := (balanced.inUse found).mpr referred
  exact ⟨object, found, by simp [object?, found, phase], phase⟩

theorem Balanced.unreferred_of_queued (balanced : Balanced held heap) {pool : P} (member : address ∈ heap.queues pool) :
    heap.references held address = 0 := by
  by_contra referred
  obtain ⟨object, found, waiting, _⟩ := balanced.queued member
  rw [(balanced.inUse found).mpr referred] at waiting
  cases waiting

/-- What a step may do to one object: its references change, and counter, phase and
pool follow them. -/
theorem Balanced.update (balanced : Balanced held heap) {held' : List Nat} {heap' : CountedHeap P}
    (objects : heap'.objects = Function.update heap.objects address (some object))
    (others : ∀ {other}, other ≠ address → heap'.references held' other = heap.references held other)
    (counter : object.counter = Int32.ofNat (heap'.references held' address))
    (inUse : object.phase = .inUse ↔ heap'.references held' address ≠ 0)
    (unused : ∀ {other}, heap'.fresh ≤ other → heap.fresh ≤ other ∧ other ≠ address)
    (queued : ∀ {pool other}, other ∈ heap'.queues pool → other ∈ heap.queues pool ∧ other ≠ address ∨
      other = address ∧ object.phase = .waiting ∧ object.pool = some pool)
    (nodup : ∀ pool, (heap'.queues pool).Nodup) : Balanced held' heap' := by
  have own : heap'.objects address = some object := by rw [objects, Function.update_self]
  have same_object : ∀ {other}, other ≠ address → heap'.objects other = heap.objects other := by
    intro other different
    rw [objects, Function.update_of_ne different]
  constructor
  · intro other this present
    by_cases same : other = address
    · subst same
      cases own.symm.trans present
      exact counter
    · rw [same_object same] at present
      rw [others same]
      exact balanced.counter present
  · intro other this present
    by_cases same : other = address
    · subst same
      cases own.symm.trans present
      exact inUse
    · rw [same_object same] at present
      rw [others same]
      exact balanced.inUse present
  · intro other referred
    by_cases same : other = address
    · exact ⟨object, same ▸ own⟩
    · rw [others same] at referred
      rw [same_object same]
      exact balanced.present referred
  · intro other beyond
    obtain ⟨free, different⟩ := unused beyond
    rw [same_object different]
    exact balanced.unused free
  · intro pool other member
    rcases queued member with ⟨old, different⟩ | ⟨rfl, waiting, pooled⟩
    · rw [same_object different]
      exact balanced.queued old
    · exact ⟨object, own, waiting, pooled⟩
  · exact nodup

theorem Balanced.ne_of_unused (balanced : Balanced held heap) (found : heap.objects address = some object)
    {other : Nat} (beyond : heap.fresh ≤ other) : other ≠ address := by
  intro same
  rw [← same, balanced.unused beyond] at found
  cases found

theorem Balanced.setObject (balanced : Balanced held heap) {held' : List Nat} (found : heap.objects address = some object)
    (phase : object.phase = .inUse) (counter : Int32)
    (others : ∀ other, other ≠ address → heap.references held' other = heap.references held other)
    (own : heap.references held' address ≠ 0)
    (counted : counter = Int32.ofNat (heap.references held' address)) :
    Balanced held' (heap.setObject address { object with counter }) := by
  have referred := (balanced.inUse found).mp phase
  refine balanced.update rfl (others _) counted (iff_of_true phase own) ?_ ?_ balanced.nodup
  · exact fun beyond => ⟨beyond, balanced.ne_of_unused found beyond⟩
  · intro pool other member
    refine .inl ⟨member, ?_⟩
    intro same
    exact referred (same ▸ balanced.unreferred_of_queued member)

theorem Balanced.addRef (balanced : Balanced held heap) (referred : heap.references held address ≠ 0) :
    ∃ heap', heap.addRef address = some heap' ∧ Balanced (address :: held) heap' ∧ heap'.pointers = heap.pointers := by
  obtain ⟨object, found, live, phase⟩ := balanced.object_inUse referred
  refine ⟨heap.setObject address { object with counter := object.counter + 1 }, ?_, ?_, rfl⟩
  · rw [CountedHeap.addRef, live, Option.map_some]
  apply balanced.setObject found phase
  · intro other different
    rw [references_cons, if_neg (Ne.symm different), Nat.add_zero]
  · rw [references_cons, if_pos rfl]
    omega
  · rw [references_cons, if_pos rfl, Int32.ofNat_add, balanced.counter found]
    rfl

/-- An object that nobody refers to comes into use with its first reference. -/
theorem Balanced.introduce (balanced : Balanced held heap) (unreferred : heap.references held address = 0)
    {heap' : CountedHeap P} (phase : object.phase = .inUse) (counter : object.counter = 1)
    (objects : heap'.objects = Function.update heap.objects address (some object))
    (pointers : heap'.pointers = heap.pointers) (free : heap.fresh ≤ heap'.fresh) (bound : address < heap'.fresh)
    (queued : ∀ {pool other}, other ∈ heap'.queues pool → other ∈ heap.queues pool ∧ other ≠ address)
    (nodup : ∀ pool, (heap'.queues pool).Nodup) : Balanced (address :: held) heap' := by
  have referred : ∀ other, heap'.references (address :: held) other =
      heap.references held other + if address = other then 1 else 0 := by
    intro other
    rw [references_cons, references, owners, pointers]
    rfl
  have one : heap'.references (address :: held) address = 1 := by
    rw [referred, if_pos rfl, unreferred]
  refine balanced.update objects ?_ ?_ ?_ ?_ ?_ nodup
  · intro other different
    rw [referred, if_neg (Ne.symm different), Nat.add_zero]
  · rw [counter, one]
    rfl
  · rw [one]
    exact iff_of_true phase Nat.one_ne_zero
  · exact fun beyond => ⟨Nat.le_trans free beyond, Nat.ne_of_gt (Nat.lt_of_lt_of_le bound beyond)⟩
  · exact fun member => .inl (queued member)

theorem Balanced.references_fresh (balanced : Balanced held heap) : heap.references held heap.fresh = 0 := by
  by_contra referred
  obtain ⟨object, found⟩ := balanced.present referred
  rw [balanced.unused (Nat.le_refl _)] at found
  cases found

theorem Balanced.allocate (balanced : Balanced held heap) (pool : Option P) :
    ∃ heap', (heap.allocate pool).2.addRef heap.fresh = some heap' ∧ Balanced (heap.fresh :: held) heap' ∧
      heap'.pointers = heap.pointers := by
  refine ⟨{ heap.setObject heap.fresh ⟨1, pool, .inUse⟩ with fresh := heap.fresh + 1 }, ?_, ?_, rfl⟩
  · simp [CountedHeap.allocate, CountedHeap.addRef, object?, CountedHeap.setObject]
  · refine balanced.introduce balanced.references_fresh rfl rfl rfl rfl (Nat.le_succ _) (Nat.lt_succ_self _) ?_ ?_
    · intro pool other member
      refine ⟨member, ?_⟩
      rintro rfl
      obtain ⟨this, present, _⟩ := balanced.queued member
      rw [balanced.unused (Nat.le_refl _)] at present
      cases present
    · exact balanced.nodup

end

/-- The first reference to an object of a pool. -/
theorem Balanced.createRaw {heap : CountedHeap P} {held : List Nat} (balanced : Balanced held heap) (pool : P) :
    ∃ address raw heap', heap.createRaw pool = some (address, raw) ∧ raw.addRef address = some heap' ∧
      heap.references held address = 0 ∧ Balanced (address :: held) heap' ∧ heap'.pointers = heap.pointers := by
  cases queue : heap.queues pool with
  | nil =>
    obtain ⟨heap', counted, after, same⟩ := balanced.allocate (some pool)
    refine ⟨heap.fresh, (heap.allocate (some pool)).2, heap', ?_, counted, balanced.references_fresh, after, same⟩
    rw [CountedHeap.createRaw, queue]
    rfl
  | cons address rest =>
    have first : address ∈ heap.queues pool := by
      rw [queue]
      exact List.mem_cons_self
    obtain ⟨object, found, _, own⟩ := balanced.queued first
    have unreferred := balanced.unreferred_of_queued first
    have zero : object.counter = 0 := by
      rw [balanced.counter found, unreferred]
      rfl
    have distinct := balanced.nodup pool
    rw [queue, List.nodup_cons] at distinct
    refine ⟨address, { heap.setObject address { object with phase := .inUse } with
      queues := Function.update heap.queues pool rest }, { heap.setObject address ⟨1, object.pool, .inUse⟩ with
      queues := Function.update heap.queues pool rest }, ?_, ?_, unreferred, ?_, rfl⟩
    · rw [CountedHeap.createRaw, queue]
      simp only [found, Option.map_some]
    · simp [CountedHeap.addRef, object?, CountedHeap.setObject, zero]
    · refine balanced.introduce unreferred rfl rfl rfl rfl (Nat.le_refl _) ?_ ?_ ?_
      · by_contra beyond
        exact balanced.ne_of_unused found (Nat.le_of_not_lt beyond) rfl
      · intro pool' other member
        by_cases same : pool' = pool
        · subst same
          simp only [Function.update_self] at member
          rw [queue]
          refine ⟨List.mem_cons_of_mem _ member, ?_⟩
          rintro rfl
          exact distinct.1 member
        · simp only [Function.update_of_ne same] at member
          refine ⟨member, ?_⟩
          rintro rfl
          obtain ⟨this, present, _, theirs⟩ := balanced.queued member
          cases found.symm.trans present
          rw [own] at theirs
          cases theirs
          exact same rfl
      · rw [Function.forall_update_iff heap.queues fun _ queue => queue.Nodup]
        exact ⟨distinct.2, fun pool' _ => balanced.nodup pool'⟩

section

variable {heap : CountedHeap P} {held : List Nat} {address : Nat} {object : CountedObject P}

omit [DecidableEq P]

/-- An object without references leaves use; it may wait in its pool from then on. -/
theorem Balanced.retire (balanced : Balanced (address :: held) heap) (unreferred : heap.references held address = 0)
    {heap' : CountedHeap P} (phase : object.phase ≠ .inUse) (counter : object.counter = 0)
    (objects : heap'.objects = Function.update heap.objects address (some object))
    (pointers : heap'.pointers = heap.pointers) (free : heap'.fresh = heap.fresh)
    (queued : ∀ {pool other}, other ∈ heap'.queues pool →
      other ∈ heap.queues pool ∨ other = address ∧ object.phase = .waiting ∧ object.pool = some pool)
    (nodup : ∀ pool, (heap'.queues pool).Nodup) : Balanced held heap' := by
  have one : heap.references (address :: held) address ≠ 0 := by
    rw [references_cons, if_pos rfl]
    omega
  have referred : ∀ other, heap'.references held other = heap.references held other := by
    intro other
    rw [references, owners, pointers]
    rfl
  have none : heap'.references held address = 0 := (referred address).trans unreferred
  refine balanced.update objects ?_ ?_ ?_ ?_ ?_ nodup
  · intro other different
    rw [referred, references_cons, if_neg (Ne.symm different), Nat.add_zero]
  · rw [counter, none]
    rfl
  · exact iff_of_false phase (not_not.mpr none)
  · intro other beyond
    rw [free] at beyond
    obtain ⟨before, found⟩ := balanced.present one
    exact ⟨beyond, balanced.ne_of_unused found beyond⟩
  · intro pool other member
    refine (queued member).imp_left fun old => ⟨old, ?_⟩
    intro same
    exact one (same ▸ balanced.unreferred_of_queued old)

theorem Balanced.repoint (balanced : Balanced held heap) {held' : List Nat} (pointers : List (Option Nat))
    (same : ∀ other, ({ heap with pointers } : CountedHeap P).references held' other = heap.references held other) :
    Balanced held' { heap with pointers } where
  counter present := by
    rw [same]
    exact balanced.counter present
  inUse present := by
    rw [same]
    exact balanced.inUse present
  present referred := by
    rw [same] at referred
    exact balanced.present referred
  unused := balanced.unused
  queued := balanced.queued
  nodup := balanced.nodup

theorem ofNat_eq_zero_iff {count : Nat} (small : count < 2 ^ 32) : Int32.ofNat count = 0 ↔ count = 0 := by
  constructor
  · intro zero
    have bits : count % 2 ^ 32 = 0 := congrArg (fun value : Int32 => value.toBitVec.toNat) zero
    rwa [Nat.mod_eq_of_lt small] at bits
  · rintro rfl
    rfl

end

/-- After its last reference an object goes back to its pool or is deleted. -/
theorem Balanced.suicide {heap : CountedHeap P} {held : List Nat} {address : Nat} {object : CountedObject P}
    (balanced : Balanced (address :: held) heap) (unreferred : heap.references held address = 0)
    (found : heap.objects address = some object) (maxSize : Nat) :
    Balanced held (heap.suicide maxSize address { object with counter := 0 }) ∧
      (heap.suicide maxSize address { object with counter := 0 }).pointers = heap.pointers := by
  have referred : heap.references (address :: held) address ≠ 0 := by
    rw [references_cons, if_pos rfl]
    omega
  have deletes : Balanced held (heap.setObject address ⟨0, object.pool, .deleted⟩) := by
    refine balanced.retire unreferred (by simp) rfl rfl rfl rfl ?_ balanced.nodup
    exact fun member => .inl member
  rw [CountedHeap.suicide]
  cases pooled : object.pool with
  | none =>
    rw [pooled] at deletes
    exact ⟨deletes, rfl⟩
  | some pool =>
    rw [pooled] at deletes
    dsimp only
    split
    · refine ⟨balanced.retire unreferred (by simp) rfl rfl rfl rfl ?_ ?_, rfl⟩
      · intro pool' other member
        by_cases same : pool' = pool
        · subst same
          simp only [Function.update_self, List.mem_append, List.mem_singleton] at member
          rcases member with old | rfl
          · exact .inl old
          · exact .inr ⟨rfl, rfl, rfl⟩
        · simp only [Function.update_of_ne same] at member
          exact .inl member
      · rw [Function.forall_update_iff heap.queues fun _ queue => queue.Nodup]
        refine ⟨List.Nodup.append (balanced.nodup pool) (List.nodup_singleton address) ?_, fun pool' _ => balanced.nodup pool'⟩
        intro other old last
        rw [List.mem_singleton.mp last] at old
        exact referred (balanced.unreferred_of_queued old)
    · exact ⟨deletes, rfl⟩

/-- Giving a reference back: the object commits suicide exactly if it was the last one. -/
theorem Balanced.release {heap : CountedHeap P} {held : List Nat} {address : Nat}
    (balanced : Balanced (address :: held) heap) (small : heap.references held address < 2 ^ 32) (maxSize : Nat) :
    ∃ heap', heap.release maxSize address =
        some (if heap.references held address = 0 then some address else none, heap') ∧
      Balanced held heap' ∧ heap'.pointers = heap.pointers := by
  have one : heap.references (address :: held) address = heap.references held address + 1 := by
    rw [references_cons, if_pos rfl]
  obtain ⟨object, found, live, phase⟩ := balanced.object_inUse (show heap.references (address :: held) address ≠ 0 by omega)
  have counted : object.counter - 1 = Int32.ofNat (heap.references held address) := by
    rw [balanced.counter found, one, Int32.ofNat_add]
    exact Int32.add_sub_cancel _ _
  have zero := ofNat_eq_zero_iff small
  rw [CountedHeap.release, live, Option.map_some]
  by_cases last : heap.references held address = 0
  · rw [zero.mpr last] at counted
    obtain ⟨after, same⟩ := balanced.suicide last found maxSize
    simp only [counted, if_pos last]
    exact ⟨_, rfl, after, same⟩
  · have more : object.counter - 1 ≠ 0 := by
      rw [counted]
      exact fun none => last (zero.mp none)
    simp only [if_neg more, if_neg last]
    refine ⟨_, rfl, ?_, rfl⟩
    apply balanced.setObject found phase
    · intro other different
      rw [references_cons, if_neg (Ne.symm different), Nat.add_zero]
    · exact last
    · exact counted

/-- What a program does with its smart pointers, which are numbered. -/
inductive PointerCall where
  | copy (source : Nat)
  | assign (target source : Nat)
  | move (source : Nat)
  | reset (target : Nat)
  | destroy (target : Nat)

def push (heap : CountedHeap P) (pointer : Option Nat) : CountedHeap P :=
  { heap with pointers := heap.pointers ++ [pointer] }

/-- The reference that a copied smart pointer adds. -/
def addRef? (heap : CountedHeap P) : Option Nat → Option (CountedHeap P)
  | none => some heap
  | some address => heap.addRef address

/-- The reference that a smart pointer gives back. -/
def release? (maxSize : Nat) (heap : CountedHeap P) : Option Nat → Option (Option Nat × CountedHeap P)
  | none => some (none, heap)
  | some address => heap.release maxSize address

/-- A smart pointer changes to another value, whose reference is counted already, and
gives the old one's back. -/
def exchange (maxSize : Nat) (heap : CountedHeap P) (target : Nat) (pointer : Option Nat) :
    Option (Option Nat × CountedHeap P) := do
  let old ← heap.pointers[target]?
  release? maxSize { heap with pointers := heap.pointers.set target pointer } old

def pointerStep (maxSize : Nat) (heap : CountedHeap P) : PointerCall → Option (Option Nat × CountedHeap P)
  | .copy source => do
    let pointer ← heap.pointers[source]?
    let heap ← heap.addRef? pointer
    return (none, heap.push pointer)
  | .assign target source => do
    let pointer ← heap.pointers[source]?
    let heap ← heap.addRef? pointer
    exchange maxSize heap target pointer
  | .move source => do
    let pointer ← heap.pointers[source]?
    return (none, { heap with pointers := heap.pointers.set source none ++ [pointer] })
  | .reset target => exchange maxSize heap target none
  | .destroy target => exchange maxSize heap target none

/-- A step commits suicide on an object exactly if the object loses its last owner in it. -/
def LastOwnerGoes (heap : CountedHeap P) (suicide : Option Nat) (heap' : CountedHeap P) : Prop :=
  ∀ address, suicide = some address ↔ 0 < heap.owners address ∧ heap'.owners address = 0

section

variable {heap heap' : CountedHeap P} {held : List Nat} {address : Nat} {pointer old : Option Nat} {target : Nat}

omit [DecidableEq P]

theorem owners_push (heap : CountedHeap P) (pointer : Option Nat) (other : Nat) :
    (heap.push pointer).owners other = heap.owners other + if pointer = some other then 1 else 0 := by
  simp [owners, push, List.count_append, List.count_singleton]

theorem owners_set (found : heap.pointers[target]? = some old) (pointer : Option Nat) (other : Nat) :
    ({ heap with pointers := heap.pointers.set target pointer } : CountedHeap P).owners other +
        (if old = some other then 1 else 0) =
      heap.owners other + if pointer = some other then 1 else 0 := by
  obtain ⟨inside, own⟩ := List.getElem?_eq_some_iff.mp found
  have counted := List.count_set (a := pointer) (b := some other) inside
  have member : old = some other → 0 < heap.pointers.count (some other) := by
    intro same
    apply List.count_pos_iff.mpr
    rw [← same, ← own]
    exact List.getElem_mem inside
  simp only [owners, own, beq_iff_eq] at counted ⊢
  split <;> split at counted <;> grind

theorem count_toList (pointer : Option Nat) (other : Nat) :
    pointer.toList.count other = if pointer = some other then 1 else 0 := by
  cases pointer with
  | none => simp
  | some address => simp [List.count_singleton]

theorem Balanced.addRef? (balanced : Balanced held heap) (pointer : Option Nat) (referred : ∀ address, pointer = some address →
    heap.references held address ≠ 0) :
    ∃ heap', heap.addRef? pointer = some heap' ∧ Balanced (pointer.toList ++ held) heap' ∧
      heap'.pointers = heap.pointers := by
  cases pointer with
  | none => exact ⟨heap, rfl, balanced, rfl⟩
  | some address => exact balanced.addRef (referred address rfl)

theorem Balanced.push (balanced : Balanced (pointer.toList ++ held) heap) : Balanced held (heap.push pointer) := by
  apply balanced.repoint
  intro other
  have counted := owners_push heap pointer other
  simp only [CountedHeap.push] at counted
  rw [references, references, counted, List.count_append, count_toList]
  omega

theorem references_nil (heap : CountedHeap P) (other : Nat) : heap.references [] other = heap.owners other := rfl

theorem owners_ne_zero (found : heap.pointers[target]? = some (some address)) : heap.owners address ≠ 0 := by
  have member : some address ∈ heap.pointers := List.mem_of_getElem? found
  exact Nat.ne_of_gt (List.count_pos_iff.mpr member)

theorem owners_congr (same : heap'.pointers = heap.pointers) (other : Nat) : heap'.owners other = heap.owners other := by
  rw [owners, owners, same]

theorem lastOwnerGoes_none (more : ∀ other, heap.owners other ≤ heap'.owners other) :
    LastOwnerGoes heap none heap' := by
  intro other
  have bound := more other
  constructor
  · intro same
    cases same
  · omega

end

section

variable {heap heap' : CountedHeap P} {address : Nat} {pointer old : Option Nat} {target : Nat}

/-- Exchanging the value of a smart pointer whose new reference is counted. -/
theorem Balanced.exchange (pointer : Option Nat) (balanced : Balanced pointer.toList heap)
    (small : ∀ other, heap.owners other < 2 ^ 31) (found : heap.pointers[target]? = some old) (maxSize : Nat) :
    ∃ suicide heap', heap.exchange maxSize target pointer = some (suicide, heap') ∧ Balanced [] heap' ∧
      LastOwnerGoes heap suicide heap' := by
  have counted := owners_set found pointer
  have after : Balanced old.toList { heap with pointers := heap.pointers.set target pointer } := by
    apply balanced.repoint
    intro other
    rw [references, references, count_toList, count_toList]
    exact counted other
  have started : heap.exchange maxSize target pointer =
      release? maxSize { heap with pointers := heap.pointers.set target pointer } old := by
    rw [CountedHeap.exchange, found]
    rfl
  generalize { heap with pointers := heap.pointers.set target pointer } = middle at counted after started
  rw [started]
  cases old with
  | none =>
    refine ⟨none, middle, rfl, after, lastOwnerGoes_none ?_⟩
    intro other
    have sum := counted other
    simp at sum
    omega
  | some address =>
    have present := owners_ne_zero found
    have sum := counted address
    have bound := small address
    obtain ⟨heap', released, balanced', same⟩ := after.release (show middle.references [] address < 2 ^ 32 by
      rw [references_nil]
      grind) maxSize
    refine ⟨_, heap', released, balanced', ?_⟩
    intro other
    have sum' := counted other
    rw [references_nil, owners_congr same]
    grind

/-- What a program does with its smart pointers keeps the counters right, as long as
no object has 2^31 owners. -/
theorem Balanced.pointerStep (balanced : Balanced [] heap) (small : ∀ other, heap.owners other < 2 ^ 31)
    {maxSize : Nat} {call : PointerCall} {suicide : Option Nat}
    (ran : heap.pointerStep maxSize call = some (suicide, heap')) :
    Balanced [] heap' ∧ LastOwnerGoes heap suicide heap' := by
  have reset : ∀ target, heap.exchange maxSize target none = some (suicide, heap') →
      Balanced [] heap' ∧ LastOwnerGoes heap suicide heap' := by
    intro target ran
    obtain ⟨old, found, _⟩ := Option.bind_eq_some_iff.mp ran
    obtain ⟨_, _, ran', after⟩ := Balanced.exchange none balanced small found maxSize
    cases ran.symm.trans ran'
    exact after
  cases call with
  | copy source =>
    obtain ⟨pointer, found, rest⟩ := Option.bind_eq_some_iff.mp ran
    obtain ⟨middle, counted, after, same⟩ := balanced.addRef? pointer fun address own =>
      owners_ne_zero (own ▸ found)
    rw [counted] at rest
    cases rest
    refine ⟨after.push, lastOwnerGoes_none ?_⟩
    intro other
    rw [owners_push, owners_congr same]
    exact Nat.le_add_right _ _
  | assign target source =>
    obtain ⟨pointer, found, rest⟩ := Option.bind_eq_some_iff.mp ran
    obtain ⟨middle, counted, after, same⟩ := balanced.addRef? pointer fun address own =>
      owners_ne_zero (own ▸ found)
    rw [counted] at rest
    have exchanged : middle.exchange maxSize target pointer = some (suicide, heap') := rest
    obtain ⟨old, found', _⟩ := Option.bind_eq_some_iff.mp exchanged
    have small' : ∀ other, middle.owners other < 2 ^ 31 := by
      intro other
      rw [owners_congr same]
      exact small other
    rw [List.append_nil] at after
    obtain ⟨_, _, ran', balanced', goes⟩ := Balanced.exchange pointer after small' found' maxSize
    cases exchanged.symm.trans ran'
    refine ⟨balanced', ?_⟩
    intro other
    rw [goes other, owners_congr same]
  | move source =>
    obtain ⟨pointer, found, rest⟩ := Option.bind_eq_some_iff.mp ran
    cases rest
    have counted : ∀ other, ({ heap with pointers := heap.pointers.set source none ++ [pointer] } :
        CountedHeap P).owners other = heap.owners other := by
      intro other
      have set := owners_set found none other
      have pushed := owners_push { heap with pointers := heap.pointers.set source none } pointer other
      simp only [CountedHeap.push] at pushed
      rw [if_neg (Option.some_ne_none other).symm] at set
      omega
    refine ⟨balanced.repoint _ counted, lastOwnerGoes_none ?_⟩
    intro other
    exact Nat.le_of_eq (counted other).symm
  | reset target => exact reset target ran
  | destroy target => exact reset target ran

end

end CountedHeap

end Goap.Foundation
