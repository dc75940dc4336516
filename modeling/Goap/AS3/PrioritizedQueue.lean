import Goap.AS3.PlanningAction
import Goap.Foundation.TwoListQueue
import Goap.Foundation.RunningMinimum
import Goap.Foundation.Grouping

/-! `PrioritizedQueue` and `PrioritizedStack` of the planner in ActionScript. Their arrays
stand under integer costs in a dictionary, `_min` is its least key. -/

namespace Goap.AS3

open NumberOps Foundation

/-- The two classes behind `IPrioritized`. -/
inductive Prioritized where
  | PrioritizedQueue
  | PrioritizedStack
deriving DecidableEq, Repr

namespace Prioritized

/-- `queue.shift()` or `queue.pop()`, with what is left of the array. -/
def take {P : Type} : Prioritized → List P → Option (P × List P)
  | PrioritizedQueue, queue => queue.head?.map fun value => (value, queue.tail)
  | PrioritizedStack, queue => queue.getLast?.map fun value => (value, queue.dropLast)

/-- Which element of an array leaves first. -/
def discipline : Prioritized → Discipline
  | PrioritizedQueue => .oldest
  | PrioritizedStack => .newest

theorem take_eq {P : Type} (kind : Prioritized) (before after : List P) (path : P)
    (first : kind.discipline = .oldest → before = []) (last : kind.discipline = .newest → after = []) :
    kind.take (before ++ path :: after) = some (path, before ++ after) := by
  cases kind with
  | PrioritizedQueue => simp [first rfl, take]
  | PrioritizedStack => simp [last rfl, take]

end Prioritized

/-- The fields of a `PrioritizedQueue`; its elements are paths, of which it reads the cost. -/
structure PrioritizedQueue (P : Type) where
  _queues : AList fun _ : Int32 => List P
  _min : Int32
  _lazyArray : List P

namespace PrioritizedQueue

variable {N P : Type} [NumberOps N] (kind : Prioritized) (cost : P → N)

/-- `0x7FFFFFFF`. -/
def noMin : Int32 := Int32.maxValue

def new : PrioritizedQueue P := ⟨∅, noMin, []⟩

/-- `int(10000000.0 * path.cost)`. -/
def icost (path : P) : Int32 := toInt (number 10000000 * cost path)

def push (q : PrioritizedQueue P) (path : P) : PrioritizedQueue P :=
  match q._queues.lookup (icost cost path) with
  | none =>
    { q with
      _queues := q._queues.insert (icost cost path) [path]
      _min := if icost cost path < q._min then icost cost path else q._min }
  | some queue => { q with _queues := q._queues.insert (icost cost path) (queue ++ [path]) }

def pushLazy (q : PrioritizedQueue P) (path : P) : PrioritizedQueue P :=
  { q with _lazyArray := q._lazyArray ++ [path] }

def useLazyArray (q : PrioritizedQueue P) : PrioritizedQueue P :=
  q._lazyArray.foldl (push cost) { q with _lazyArray := [] }

/-- The getter `isEmpty`, which lets the lazy array in when nothing else is there. -/
def isEmpty (q : PrioritizedQueue P) : Bool × PrioritizedQueue P :=
  if !q._queues.entries.isEmpty then (false, q)
  else if !q._lazyArray.isEmpty then (false, useLazyArray cost { q with _min := noMin })
  else (true, q)

/-- The getter `length`: the number of arrays. -/
def length (q : PrioritizedQueue P) : Int32 := Int32.ofNat q._queues.entries.length

/-- `clear`; the lazy array stays. -/
def clear (q : PrioritizedQueue P) : PrioritizedQueue P := { q with _queues := ∅, _min := noMin }

/-- The loop over the keys of the dictionary, in whatever order. -/
def recomputeMin (q : PrioritizedQueue P) : PrioritizedQueue P :=
  { q with _min := q._queues.keys.foldl (fun least key => if key < least then key else least) noMin }

/-- The end of `pop`, after the array under `min` has given its last path. -/
def refill (q : PrioritizedQueue P) (min : Int32) : PrioritizedQueue P :=
  let q := useLazyArray cost q
  if ((q._queues.lookup min).getD []).isEmpty then
    let q := { q with _queues := q._queues.erase min }
    if min = q._min then recomputeMin q else q
  else q

def pop (q : PrioritizedQueue P) : Except Error (Option P × PrioritizedQueue P) :=
  let (nothing, q) := isEmpty cost q
  if nothing then .ok (none, q)
  else
    let min := q._min
    match q._queues.lookup min with
    | none => .error nullReference
    | some queue =>
      match kind.take queue with
      | none => .error "[PrioritizedQueue] pop error"
      | some (value, queue) =>
        let q := { q with _queues := q._queues.insert min queue }
        if queue.isEmpty then .ok (some value, refill cost q min) else .ok (some value, q)

inductive Call (P : Type) where
  | push (path : P)
  | pushLazy (path : P)
  | pop
  | isEmpty
  | length
  | clear
  | currentPriority
deriving DecidableEq, Repr

inductive Reply (P : Type) where
  | done
  | popped (path : Option P)
  | isEmpty (answer : Bool)
  | length (count : Int32)
  | currentPriority (priority : Int)
deriving DecidableEq, Repr

def call (q : PrioritizedQueue P) : Call P → Except Error (Reply P × PrioritizedQueue P)
  | .push path => .ok (.done, q.push cost path)
  | .pushLazy path => .ok (.done, q.pushLazy path)
  | .pop => (pop kind cost q).map fun (path, q) => (.popped path, q)
  | .isEmpty => let (answer, q) := isEmpty cost q; .ok (.isEmpty answer, q)
  | .length => .ok (.length q.length, q)
  | .clear => .ok (.done, q.clear)
  | .currentPriority => .ok (.currentPriority q._min.toInt, q)

def run (q : PrioritizedQueue P) : List (Call P) → Except Error (List (Reply P) × PrioritizedQueue P)
  | [] => .ok ([], q)
  | request :: calls =>
    match call kind cost q request with
    | .error e => .error e
    | .ok (reply, q) =>
      match run q calls with
      | .error e => .error e
      | .ok (replies, q) => .ok (reply :: replies, q)

def bucket (q : PrioritizedQueue P) (key : Int32) : List P := (q._queues.lookup key).getD []

def priority (path : P) : Int := (icost cost path).toInt

variable {cost} {q : PrioritizedQueue P} {active : List P}

/-- `_min` is the least key of the dictionary. -/
structure LeastKey (q : PrioritizedQueue P) : Prop where
  below : ∀ key ∈ q._queues, q._min.toInt ≤ key.toInt
  attained : q._min ∈ q._queues ∨ q._queues = ∅ ∧ q._min = noMin

/-- The arrays hold the active paths by key, in the order of their arrival. Between calls no
array is empty; inside `pop` the one under `drained` may be. -/
structure Holds (cost : P → N) (drained : Option Int32) (active : List P) (q : PrioritizedQueue P) : Prop where
  least : LeastKey q
  buckets : ∀ key, bucket q key = active.filter fun path => icost cost path = key
  occupied : ∀ key ∈ q._queues, some key ≠ drained → bucket q key ≠ []

structure Refines (cost : P → N) (q : PrioritizedQueue P) (machine : TwoList P) : Prop where
  holds : Holds cost none machine.active q
  pending : q._lazyArray = machine.pending

theorem LeastKey.new : LeastKey (new : PrioritizedQueue P) where
  below key stored := absurd stored (AList.notMem_empty key)
  attained := .inr ⟨rfl, rfl⟩

theorem Holds.new : Holds cost none [] (new : PrioritizedQueue P) where
  least := .new
  buckets _ := rfl
  occupied key stored := absurd stored (AList.notMem_empty key)

theorem mem_push_iff {path : P} {key : Int32} :
    key ∈ (q.push cost path)._queues ↔ key = icost cost path ∨ key ∈ q._queues := by
  unfold push
  split <;> exact AList.mem_insert _

theorem bucket_push (q : PrioritizedQueue P) (path : P) (key : Int32) :
    bucket (q.push cost path) key = if icost cost path = key then bucket q key ++ [path] else bucket q key := by
  unfold push bucket
  split
  · rename_i missing
    by_cases same : icost cost path = key
    · subst same
      simp [missing]
    · simp [same, AList.lookup_insert_ne (Ne.symm same)]
  · rename_i queue found
    by_cases same : icost cost path = key
    · subst same
      simp [found]
    · simp [same, AList.lookup_insert_ne (Ne.symm same)]

theorem lookup_eq_none_of_notMem {key : Int32} (missing : key ∉ q._queues) : q._queues.lookup key = none :=
  AList.lookup_eq_none.mpr missing

theorem bucket_of_notMem {key : Int32} (missing : key ∉ q._queues) : bucket q key = [] := by
  rw [bucket, lookup_eq_none_of_notMem missing]
  rfl

theorem LeastKey.push (least : LeastKey q) (path : P) : LeastKey (q.push cost path) := by
  by_cases stored : icost cost path ∈ q._queues
  · obtain ⟨queue, found⟩ := Option.isSome_iff_exists.mp (AList.lookup_isSome.mpr stored)
    have kept : (q.push cost path)._min = q._min := by simp [PrioritizedQueue.push, found]
    constructor
    · intro key member
      rw [kept]
      rcases mem_push_iff.mp member with own | old
      · exact own ▸ least.below _ stored
      · exact least.below key old
    · left
      rw [kept, mem_push_iff]
      rcases least.attained with member | ⟨empty, _⟩
      · exact .inr member
      · rw [empty] at stored
        exact absurd stored (AList.notMem_empty _)
  · have moved : (q.push cost path)._min =
        if (icost cost path).toInt < q._min.toInt then icost cost path else q._min := by
      simp [PrioritizedQueue.push, lookup_eq_none_of_notMem stored, Int32.lt_iff_toInt_lt]
    constructor
    · intro key member
      rw [moved]
      rcases mem_push_iff.mp member with own | old
      · subst own
        split
        · exact le_refl _
        · omega
      · have before := least.below key old
        split <;> omega
    · rw [moved]
      split
      · exact .inl (mem_push_iff.mpr (.inl rfl))
      · rename_i above
        rcases least.attained with member | ⟨_, top⟩
        · exact .inl (mem_push_iff.mpr (.inr member))
        · -- the key is `noMin` itself, so the dictionary has it now
          left
          rw [mem_push_iff, top]
          have ceiling := Int32.le_iff_toInt_le.mp (Int32.le_maxValue (icost cost path))
          left
          apply Int32.toInt_inj.mp
          rw [top] at above
          have floor : noMin.toInt = Int32.maxValue.toInt := rfl
          omega

theorem Holds.push (holds : Holds cost drained active q) (path : P) :
    Holds cost drained (active ++ [path]) (q.push cost path) := by
  refine ⟨holds.least.push path, ?_, ?_⟩
  · intro key
    rw [bucket_push, List.filter_append, holds.buckets]
    by_cases same : icost cost path = key <;> simp [same]
  · intro key stored other
    rw [bucket_push]
    rcases mem_push_iff.mp stored with own | old
    · simp [own]
    · have before := holds.occupied key old other
      split <;> simp [before]

theorem Holds.withLazyArray (holds : Holds cost drained active q) (_lazyArray : List P) :
    Holds cost drained active { q with _lazyArray } :=
  ⟨⟨holds.least.below, holds.least.attained⟩, holds.buckets, holds.occupied⟩

theorem Holds.useLazyArray (holds : Holds cost drained active q) :
    Holds cost drained (active ++ q._lazyArray) (useLazyArray cost q) := by
  suffices flushed : ∀ (paths active : List P) (q : PrioritizedQueue P), Holds cost drained active q →
      Holds cost drained (active ++ paths) (paths.foldl (PrioritizedQueue.push cost) q) by
    exact flushed q._lazyArray active _ (holds.withLazyArray [])
  intro paths
  induction paths with
  | nil =>
    intro active q holds
    simpa using holds
  | cons path rest ih =>
    intro active q holds
    simpa using ih (active ++ [path]) (q.push cost path) (holds.push path)

theorem lazyArray_push (q : PrioritizedQueue P) (path : P) : (q.push cost path)._lazyArray = q._lazyArray := by
  unfold push
  split <;> rfl

@[simp] theorem lazyArray_useLazyArray (q : PrioritizedQueue P) : (useLazyArray cost q)._lazyArray = [] := by
  suffices kept : ∀ (paths : List P) (q : PrioritizedQueue P),
      (paths.foldl (push cost) q)._lazyArray = q._lazyArray by
    exact kept q._lazyArray { q with _lazyArray := [] }
  intro paths
  induction paths with
  | nil => exact fun _ => rfl
  | cons path rest ih => exact fun q => (ih (q.push cost path)).trans (lazyArray_push q path)

theorem Holds.mem (holds : Holds cost drained active q) {path : P} (member : path ∈ active) :
    icost cost path ∈ q._queues := by
  by_contra missing
  have inside : path ∈ bucket q (icost cost path) := by
    rw [holds.buckets]
    exact List.mem_filter.mpr ⟨member, by simp⟩
  rw [bucket_of_notMem missing] at inside
  cases inside

theorem Holds.entries_isEmpty (holds : Holds cost none active q) : q._queues.entries.isEmpty = active.isEmpty := by
  rw [Bool.eq_iff_iff, List.isEmpty_iff, List.isEmpty_iff]
  constructor
  · intro vacant
    have empty : q._queues = ∅ := AList.ext vacant
    apply List.eq_nil_iff_forall_not_mem.mpr
    intro path member
    have stored := holds.mem member
    rw [empty] at stored
    exact absurd stored (AList.notMem_empty _)
  · intro nothing
    apply List.eq_nil_iff_forall_not_mem.mpr
    rintro ⟨key, queue⟩ member
    have stored : key ∈ q._queues := AList.mem_keys.mpr (List.mem_map_of_mem member)
    apply holds.occupied key stored (by simp)
    rw [holds.buckets, nothing]
    rfl

theorem Holds.min_spec (holds : Holds cost none active q) (occupied : active ≠ []) :
    (∃ path ∈ active, icost cost path = q._min) ∧ ∀ path ∈ active, q._min.toInt ≤ priority cost path := by
  refine ⟨?_, fun path member => holds.least.below _ (holds.mem member)⟩
  obtain ⟨path, member⟩ := List.exists_mem_of_ne_nil active occupied
  rcases holds.least.attained with inside | ⟨empty, _⟩
  · obtain ⟨other, found⟩ := List.exists_mem_of_ne_nil _ (holds.occupied _ inside (by simp))
    rw [holds.buckets] at found
    obtain ⟨present, same⟩ := List.mem_filter.mp found
    exact ⟨other, present, by simpa using same⟩
  · have impossible := holds.mem member
    rw [empty] at impossible
    exact absurd impossible (AList.notMem_empty _)

/-- The getter settles the queue as the machine does and answers the same. -/
theorem Refines.isEmpty {machine : TwoList P} (refines : Refines cost q machine) :
    (isEmpty cost q).1 = machine.settle.active.isEmpty ∧ Refines cost (isEmpty cost q).2 machine.settle := by
  obtain ⟨holds, pending⟩ := refines
  have vacant := holds.entries_isEmpty
  unfold PrioritizedQueue.isEmpty TwoList.settle
  rw [vacant, pending]
  obtain ⟨active, waiting⟩ := machine
  cases active with
  | cons path rest => exact ⟨rfl, holds, pending⟩
  | nil =>
    simp only at pending vacant
    cases waiting with
    | nil => exact ⟨rfl, holds, pending⟩
    | cons path rest =>
      have empty : q._queues = ∅ := AList.ext (List.isEmpty_iff.mp vacant)
      have reset : Holds cost none [] { q with _min := noMin } := by
        refine ⟨⟨?_, .inr ⟨empty, rfl⟩⟩, holds.buckets, holds.occupied⟩
        intro key stored
        rw [empty] at stored
        exact absurd stored (AList.notMem_empty _)
      have flushed := reset.useLazyArray
      simp only [List.nil_append, pending] at flushed
      exact ⟨rfl, flushed, lazyArray_useLazyArray _⟩

theorem foldl_keys (keys : List Int32) (first : Int32) :
    (keys.foldl (fun least key => if key < least then key else least) first).toInt =
      least first.toInt (keys.map Int32.toInt) := by
  induction keys generalizing first with
  | nil => rfl
  | cons key keys ih =>
    have next : least first.toInt ((key :: keys).map Int32.toInt) =
        least (min first.toInt key.toInt) (keys.map Int32.toInt) := rfl
    have lower : (if key < first then key else first).toInt = min first.toInt key.toInt := by
      simp only [Int32.lt_iff_toInt_lt]
      split <;> omega
    rw [List.foldl_cons, ih, next, lower]

theorem foldl_keys_mem (keys : List Int32) (first : Int32) :
    keys.foldl (fun least key => if key < least then key else least) first ∈ first :: keys := by
  induction keys generalizing first with
  | nil => exact List.mem_singleton_self _
  | cons key keys ih =>
    rw [List.foldl_cons]
    have next := ih (if key < first then key else first)
    rcases List.mem_cons.mp next with same | later
    · rw [same]
      split <;> simp
    · exact List.mem_cons_of_mem _ (List.mem_cons_of_mem _ later)

theorem LeastKey.recomputeMin (q : PrioritizedQueue P) : LeastKey (recomputeMin q) := by
  have bound := foldl_keys q._queues.keys noMin
  have lowest := (le_least_iff.mp (le_of_eq bound)).2
  refine ⟨?_, ?_⟩
  · intro key stored
    exact lowest _ (List.mem_map_of_mem (AList.mem_keys.mp stored))
  · rcases List.mem_cons.mp (foldl_keys_mem q._queues.keys noMin) with top | stored
    · by_cases empty : q._queues = ∅
      · exact .inr ⟨empty, top⟩
      · obtain ⟨⟨key, queue⟩, member⟩ := List.exists_mem_of_ne_nil q._queues.entries fun nothing => empty (AList.ext nothing)
        have stored : key ∈ q._queues.keys := List.mem_map_of_mem member
        have above := lowest _ (List.mem_map_of_mem (f := Int32.toInt) stored)
        have ceiling := Int32.le_iff_toInt_le.mp (Int32.le_maxValue key)
        have floor : noMin.toInt = Int32.maxValue.toInt := rfl
        rw [top] at above
        have same : key = noMin := Int32.toInt_inj.mp (by omega)
        exact .inl (AList.mem_keys.mpr (by rw [PrioritizedQueue.recomputeMin, top, ← same]; exact stored))
    · exact .inl (AList.mem_keys.mpr stored)

theorem bucket_erase {min : Int32} (drained : bucket q min = []) (key : Int32) :
    bucket { q with _queues := q._queues.erase min } key = bucket q key := by
  unfold bucket at *
  by_cases same : key = min
  · subst same
    simp [drained]
  · simp [same]

/-- A drained array is filled again by the lazy paths or removed with its key. -/
theorem Holds.refill {min : Int32} (holds : Holds cost (some min) active q) :
    Holds cost none (active ++ q._lazyArray) (refill cost q min) := by
  have flushed := holds.useLazyArray
  unfold PrioritizedQueue.refill
  generalize PrioritizedQueue.useLazyArray cost q = q' at flushed
  dsimp only
  split
  · rename_i drained
    have drained : bucket q' min = [] := List.isEmpty_iff.mp drained
    have buckets := fun key => (bucket_erase drained key).trans (flushed.buckets key)
    have occupied : ∀ key ∈ q'._queues.erase min, some key ≠ none →
        bucket { q' with _queues := q'._queues.erase min } key ≠ [] := by
      intro key stored _
      obtain ⟨apart, inside⟩ := AList.mem_erase.mp stored
      rw [bucket_erase drained]
      exact flushed.occupied key inside (by simpa using apart)
    split
    · exact ⟨LeastKey.recomputeMin { q' with _queues := q'._queues.erase min }, buckets, occupied⟩
    · rename_i other
      refine ⟨⟨?_, ?_⟩, buckets, occupied⟩
      · intro key stored
        exact flushed.least.below key (AList.mem_erase.mp stored).2
      · rcases flushed.least.attained with member | ⟨empty, top⟩
        · exact .inl (AList.mem_erase.mpr ⟨fun same => other same.symm, member⟩)
        · exact .inr ⟨by rw [empty]; rfl, top⟩
  · rename_i filled
    refine ⟨flushed.least, flushed.buckets, ?_⟩
    intro key stored _
    by_cases same : key = min
    · subst same
      exact fun nothing => filled (List.isEmpty_iff.mpr nothing)
    · exact flushed.occupied key stored (by simpa using same)

@[simp] theorem lazyArray_refill (q : PrioritizedQueue P) (min : Int32) : (refill cost q min)._lazyArray = [] := by
  unfold refill
  dsimp only
  split
  · split <;> simp [recomputeMin]
  · simp

/-- Taking a path of the least key leaves its array behind, empty or not. -/
theorem Holds.take {before after queue : List P} {path : P} (holds : Holds cost none (before ++ path :: after) q)
    (own : icost cost path = q._min)
    (left : queue = (before ++ after).filter fun path => icost cost path = q._min) :
    Holds cost (some q._min) (before ++ after) { q with _queues := q._queues.insert q._min queue } := by
  have stored : q._min ∈ q._queues := by
    rcases holds.least.attained with member | ⟨empty, _⟩
    · exact member
    · have occupied := holds.buckets q._min
      rw [bucket, empty] at occupied
      have inside : path ∈ ([] : List P) := by
        rw [show ([] : List P) = _ from occupied]
        exact List.mem_filter.mpr ⟨by simp, by simp [own]⟩
      cases inside
  refine ⟨⟨?_, .inl ((AList.mem_insert _).mpr (.inl rfl))⟩, ?_, ?_⟩
  · intro key member
    rcases (AList.mem_insert _).mp member with same | old
    · rw [same]
    · exact holds.least.below key old
  · intro key
    have before' := holds.buckets key
    unfold bucket at before' ⊢
    by_cases same : key = q._min
    · subst same
      rw [AList.lookup_insert, left]
      rfl
    · have apart : icost cost path ≠ key := fun equal => same (equal.symm.trans own)
      simp only [AList.lookup_insert_ne same]
      simpa [apart] using before'
  · intro key member other
    have apart : key ≠ q._min := fun same => other (congrArg some same)
    have old := ((AList.mem_insert _).mp member).resolve_left apart
    unfold bucket
    simp only [AList.lookup_insert_ne apart]
    exact holds.occupied key old (by simp)

theorem priority_eq_iff {path other : P} : priority cost path = priority cost other ↔ icost cost path = icost cost other :=
  Int32.toInt_inj

/-- `pop` answers as the machine does and never throws. -/
theorem Refines.pop {machine : TwoList P} (refines : Refines cost q machine) :
    ∃ q', pop kind cost q = .ok ((machine.pop (priority cost) kind.discipline).1, q') ∧
      Refines cost q' (machine.pop (priority cost) kind.discipline).2 := by
  obtain ⟨answer, settled⟩ := refines.isEmpty
  unfold PrioritizedQueue.pop
  rcases TwoList.pop_cases (priority cost) kind.discipline machine with
    ⟨drained, popped⟩ | ⟨path, before, after, split, smallest, first, last, popped⟩
  · rw [← TwoList.settle_contents] at drained
    have vacant : machine.settle.active = [] := (List.append_eq_nil_iff.mp drained).1
    rw [popped]
    exact ⟨_, by simp [answer, vacant], settled⟩
  · rw [split] at answer smallest
    generalize PrioritizedQueue.isEmpty cost q = outcome at answer settled
    obtain ⟨flag, q⟩ := outcome
    simp only at answer settled
    obtain ⟨holds, pending⟩ := settled
    rw [split] at holds
    obtain ⟨⟨other, present, least⟩, bound⟩ := holds.min_spec (by simp)
    have own : icost cost path = q._min := by
      apply Int32.toInt_inj.mp
      have below := smallest other present
      have above := bound path (by simp)
      rw [← least] at above ⊢
      exact le_antisymm below above
    have bucket := holds.buckets q._min
    rw [List.filter_append, List.filter_cons_of_pos (by simpa using own)] at bucket
    have stored : q._queues.lookup q._min = some (before.filter (fun path => icost cost path = q._min) ++
        path :: after.filter fun path => icost cost path = q._min) := by
      unfold PrioritizedQueue.bucket at bucket
      cases found : q._queues.lookup q._min with
      | none => simp [found] at bucket
      | some queue => simpa [found] using bucket
    have taken := Prioritized.take_eq kind (before.filter fun path => icost cost path = q._min)
      (after.filter fun path => icost cost path = q._min) path
      (fun oldest => by
        rw [List.filter_eq_nil_iff]
        intro other member
        simpa [priority_eq_iff, own] using first oldest other member)
      (fun newest => by
        rw [List.filter_eq_nil_iff]
        intro other member
        simpa [priority_eq_iff, own] using last newest other member)
    rw [← List.filter_append] at taken
    have left := holds.take own rfl
    have flag_eq : flag = false := by simp [answer]
    subst flag_eq
    simp only [Bool.false_eq_true, ↓reduceIte, stored, taken]
    rw [popped]
    by_cases drained : (before ++ after).filter (fun path => icost cost path = q._min) = []
    · have none : ¬ ((before ++ after).any fun other => priority cost other = priority cost path) = true := by
        simpa [List.filter_eq_nil_iff, priority_eq_iff, own] using drained
      rw [drained] at left ⊢
      rw [if_neg none]
      exact ⟨_, rfl, by simpa [pending] using left.refill, by simp⟩
    · have some : ((before ++ after).any fun other => priority cost other = priority cost path) = true := by
        obtain ⟨other, member⟩ := List.exists_mem_of_ne_nil _ drained
        obtain ⟨inside, same⟩ := List.mem_filter.mp member
        exact List.any_eq_true.mpr ⟨other, inside, by simpa [priority_eq_iff, own] using same⟩
      rw [if_pos some, if_neg (by simpa using drained)]
      refine ⟨_, rfl, ⟨left.least, left.buckets, ?_⟩, pending⟩
      intro key inside _
      by_cases same : key = q._min
      · subst same
        rw [PrioritizedQueue.bucket, AList.lookup_insert]
        exact drained
      · exact left.occupied key inside (by simpa using same)

/-- The call on the two-list machine. Only the active list is cleared, the length is that of
the keys among it, and the priority is the least of them. -/
def machineCall (cost : P → N) (machine : TwoList P) : Call P → Reply P × TwoList P
  | .push path => (.done, machine.push path)
  | .pushLazy path => (.done, machine.pushLazy path)
  | .pop =>
    let (path, machine) := machine.pop (priority cost) kind.discipline
    (.popped path, machine)
  | .isEmpty => let (answer, machine) := machine.empty; (.isEmpty answer, machine)
  | .length => (.length (Int32.ofNat (machine.active.map (priority cost)).dedup.length), machine)
  | .clear => (.done, ⟨[], machine.pending⟩)
  | .currentPriority => (.currentPriority ((machine.active.map (priority cost)).min?.getD noMin.toInt), machine)

def machineRun (cost : P → N) (machine : TwoList P) : List (Call P) → List (Reply P) × TwoList P
  | [] => ([], machine)
  | request :: calls =>
    let (reply, machine) := machineCall kind cost machine request
    let (replies, machine) := machineRun cost machine calls
    (reply :: replies, machine)

theorem Holds.length (holds : Holds cost none active q) : q.length = Int32.ofNat (active.map (priority cost)).dedup.length := by
  have grouped : Groups (icost cost) active q._queues.keys := by
    refine ⟨q._queues.keys_nodup, ?_⟩
    intro key
    constructor
    · intro stored
      obtain ⟨path, inside⟩ := List.exists_mem_of_ne_nil _ (holds.occupied key (AList.mem_keys.mpr stored) (by simp))
      rw [holds.buckets] at inside
      obtain ⟨member, same⟩ := List.mem_filter.mp inside
      exact ⟨path, member, by simpa using same⟩
    · rintro ⟨path, member, rfl⟩
      exact AList.mem_keys.mp (holds.mem member)
  have keys : (active.map (priority cost)).dedup = ((active.map (icost cost)).dedup).map Int32.toInt := by
    rw [← List.dedup_map_of_injective fun _ _ => Int32.toInt_inj.mp, List.map_map]
    rfl
  rw [keys, List.length_map, ← grouped.length_eq, PrioritizedQueue.length, AList.keys, List.keys, List.length_map]

theorem Holds.currentPriority (holds : Holds cost none active q) :
    q._min.toInt = (active.map (priority cost)).min?.getD noMin.toInt := by
  by_cases vacant : active = []
  · subst vacant
    have empty : q._queues = ∅ := AList.ext (List.isEmpty_iff.mp holds.entries_isEmpty)
    rcases holds.least.attained with member | ⟨_, top⟩
    · rw [empty] at member
      exact absurd member (AList.notMem_empty _)
    · rw [top]
      rfl
  · obtain ⟨⟨path, member, same⟩, bound⟩ := holds.min_spec vacant
    have least : (active.map (priority cost)).min? = some q._min.toInt := by
      apply List.min?_eq_some_iff.mpr
      refine ⟨List.mem_map.mpr ⟨path, member, by rw [priority, same]⟩, ?_⟩
      intro other inside
      obtain ⟨path', member', rfl⟩ := List.mem_map.mp inside
      exact bound path' member'
    rw [least]
    rfl

/-- One call on the queue is one call on the machine. -/
theorem Refines.call {machine : TwoList P} (refines : Refines cost q machine) (request : Call P) :
    ∃ q', call kind cost q request = .ok ((machineCall kind cost machine request).1, q') ∧
      Refines cost q' (machineCall kind cost machine request).2 := by
  cases request with
  | push path => exact ⟨_, rfl, refines.holds.push path, (lazyArray_push q path).trans refines.pending⟩
  | pushLazy path => exact ⟨_, rfl, refines.holds.withLazyArray _, congrArg (· ++ [path]) refines.pending⟩
  | pop =>
    obtain ⟨q', popped, after⟩ := refines.pop kind
    exact ⟨q', by simp [PrioritizedQueue.call, popped, Except.map, machineCall], after⟩
  | isEmpty =>
    obtain ⟨answer, after⟩ := refines.isEmpty
    exact ⟨_, by simp [PrioritizedQueue.call, answer, machineCall, TwoList.empty], after⟩
  | length => exact ⟨q, by rw [PrioritizedQueue.call, refines.holds.length]; rfl, refines⟩
  | clear =>
    have cleared : Holds cost none [] q.clear := by
      refine ⟨⟨?_, .inr ⟨rfl, rfl⟩⟩, fun _ => rfl, ?_⟩
      · exact fun key stored => absurd stored (AList.notMem_empty key)
      · exact fun key stored => absurd stored (AList.notMem_empty key)
    exact ⟨_, rfl, cleared, refines.pending⟩
  | currentPriority => exact ⟨q, by rw [PrioritizedQueue.call, refines.holds.currentPriority]; rfl, refines⟩

theorem Refines.run {machine : TwoList P} (refines : Refines cost q machine) (calls : List (Call P)) :
    ∃ q', run kind cost q calls = .ok ((machineRun kind cost machine calls).1, q') ∧
      Refines cost q' (machineRun kind cost machine calls).2 := by
  induction calls generalizing q machine with
  | nil => exact ⟨q, rfl, refines⟩
  | cons request calls ih =>
    obtain ⟨middle, answered, between⟩ := refines.call kind request
    obtain ⟨final, replied, after⟩ := ih between
    exact ⟨final, by simp [PrioritizedQueue.run, machineRun, answered, replied], after⟩

theorem Refines.new : Refines cost (new : PrioritizedQueue P) TwoList.new := ⟨.new, rfl⟩

theorem Refines.congr {cost' : P → N} {machine : TwoList P} (refines : Refines cost q machine)
    (same : ∀ path ∈ machine.active, cost' path = cost path) : Refines cost' q machine := by
  obtain ⟨⟨least, buckets, occupied⟩, pending⟩ := refines
  refine ⟨⟨least, ?_, occupied⟩, pending⟩
  intro key
  rw [buckets]
  apply List.filter_congr
  intro path member
  rw [icost, icost, same path member]

/-- Whatever is called on a new queue or stack, nothing is thrown and the answers are those
of the two-list machine: lazy paths wait until the array of the least cost has run out, and
neither `clear` nor `length` knows of them. -/
theorem run_refines_machine (cost : P → N) (calls : List (Call P)) :
    ∃ q, run kind cost new calls = .ok ((machineRun kind cost .new calls).1, q) ∧
      Refines cost q (machineRun kind cost .new calls).2 :=
  Refines.new.run kind calls

end PrioritizedQueue

end Goap.AS3
