import Goap.Foundation.TwoListQueue
import Goap.Search.PlanningAction
import Std.Data.TreeMap

/-! The bucketed priority queue of the search. Every bucket holds the paths of
one rounded cost, `min` caches the smallest key of the map and the lazy array
waits for the current bucket to run out. -/

namespace Goap

open FloatOps Foundation

/-- The two classes behind `IPrioritized`. -/
inductive Prioritized where
  | PrioritizedQueue
  | PrioritizedStack
deriving DecidableEq, Repr

namespace Prioritized

/-- `pop_queue`, the one method that the stack overrides. -/
def popQueue : Prioritized → List P → Except Exn (P × List P)
  | PrioritizedQueue, queue =>
    match queue with
    | [] => .error "[PrioritizedQueue] queue pop error"
    | value :: rest => .ok (value, rest)
  | PrioritizedStack, queue =>
    match queue.getLast? with
    | none => .error "[PrioritizedQueue] stack pop error"
    | some value => .ok (value, queue.dropLast)

/-- Which element of a bucket leaves first. -/
def discipline : Prioritized → Discipline
  | PrioritizedQueue => .oldest
  | PrioritizedStack => .newest

end Prioritized

/-- `PrioritizedQueue`; its elements are paths, of which it reads the cost only. -/
structure PrioritizedQueue (P : Type) where
  queues : Std.TreeMap Int64 (List P)
  min : Int64
  lazyArray : List P

namespace PrioritizedQueue

variable {F P : Type} [FloatOps F] (kind : Prioritized) (cost : P → F)

def new : PrioritizedQueue P := ⟨∅, Int64.maxValue, []⟩

/-- `static_cast<std::int64_t>(100.0f * pathCost + 0.5f)`. -/
def bucketKey (pathCost : F) : Int64 := toInt64 (lit 100 * pathCost + lit (1 / 2))

def push (q : PrioritizedQueue P) (path : P) : PrioritizedQueue P :=
  let icost := bucketKey (cost path)
  let min := if !q.queues.contains icost && icost < q.min then icost else q.min
  { q with queues := q.queues.insert icost (q.queues.getD icost [] ++ [path]), min }

def pushLazy (q : PrioritizedQueue P) (path : P) : PrioritizedQueue P :=
  { q with lazyArray := q.lazyArray ++ [path] }

def useLazyArray (q : PrioritizedQueue P) : PrioritizedQueue P :=
  q.lazyArray.foldl (push cost) { q with lazyArray := [] }

def empty (q : PrioritizedQueue P) : Bool × PrioritizedQueue P :=
  if !q.queues.isEmpty then (false, q)
  else if !q.lazyArray.isEmpty then (false, useLazyArray cost { q with min := Int64.maxValue })
  else (true, q)

/-- `_min` after the bucket with the smallest key has been erased: the first key
in order, `cbegin()->first`. -/
def recomputeMin (q : PrioritizedQueue P) : PrioritizedQueue P :=
  { q with min := q.queues.keys.head?.getD Int64.maxValue }

/-- The end of `pop`, once the bucket of `min` has given its last path. -/
def refill (q : PrioritizedQueue P) (min : Int64) : PrioritizedQueue P :=
  let q := useLazyArray cost q
  if (q.queues.getD min []).isEmpty then
    let q := { q with queues := q.queues.erase min }
    if min = q.min then recomputeMin q else q
  else q

def pop (q : PrioritizedQueue P) : Except Exn (Option P × PrioritizedQueue P) :=
  let (nothing, q) := empty cost q
  if nothing then .ok (none, q)
  else
    let min := q.min
    match kind.popQueue (q.queues.getD min []) with
    | .error e => .error e
    | .ok (value, queue) =>
      let q := { q with queues := q.queues.insert min queue }
      if queue.isEmpty then .ok (some value, refill cost q min) else .ok (some value, q)

def clear (_ : PrioritizedQueue P) : PrioritizedQueue P := ⟨∅, Int64.maxValue, []⟩

def call (q : PrioritizedQueue P) : QueueCall P → Except Exn (QueueReply P × PrioritizedQueue P)
  | .push path => .ok (.done, q.push cost path)
  | .pushLazy path => .ok (.done, q.pushLazy path)
  | .pop => (pop kind cost q).map fun (path, q) => (.popped path, q)
  | .empty => let (answer, q) := empty cost q; .ok (.isEmpty answer, q)
  | .clear => .ok (.done, q.clear)

def run (q : PrioritizedQueue P) :
    List (QueueCall P) → Except Exn (List (QueueReply P) × PrioritizedQueue P)
  | [] => .ok ([], q)
  | request :: calls =>
    match call kind cost q request with
    | .error e => .error e
    | .ok (reply, q) =>
      match run q calls with
      | .error e => .error e
      | .ok (replies, q) => .ok (reply :: replies, q)

def priority (path : P) : Int := (bucketKey (cost path)).toInt

variable {cost} {q : PrioritizedQueue P} {active : List P}

/-- The buckets hold the active paths by key, in the order of their arrival. -/
def Buckets (cost : P → F) (active : List P) (q : PrioritizedQueue P) : Prop :=
  ∀ k, q.queues.getD k [] = active.filter fun path => bucketKey (cost path) = k

/-- Beside the buckets, `min` is the smallest key.
Between calls no bucket is empty; inside `pop` the bucket just drained, `blank`,
still stands in the map and still counts for `min`. -/
structure Holds (cost : P → F) (blank : Option Int64) (active : List P) (q : PrioritizedQueue P) :
    Prop where
  buckets : Buckets cost active q
  occupied : ∀ k ∈ q.queues, some k ≠ blank → q.queues.getD k [] ≠ []
  bound : ∀ path ∈ active, q.min ≤ bucketKey (cost path)
  blankBound : q.min ≤ blank.getD Int64.maxValue
  attained : q.min = blank.getD Int64.maxValue ∨ ∃ path ∈ active, bucketKey (cost path) = q.min

structure Refines (cost : P → F) (q : PrioritizedQueue P) (machine : TwoList P) : Prop where
  holds : Holds cost none machine.active q
  pending : q.lazyArray = machine.pending

theorem Buckets.ne_nil_iff (buckets : Buckets cost active q) (k : Int64) :
    q.queues.getD k [] ≠ [] ↔ ∃ path ∈ active, bucketKey (cost path) = k := by
  rw [buckets k]
  simp [List.filter_eq_nil_iff]

theorem Buckets.mem (buckets : Buckets cost active q) {path : P} (member : path ∈ active) :
    bucketKey (cost path) ∈ q.queues := by
  by_contra missing
  exact (buckets.ne_nil_iff _).mpr ⟨path, member, rfl⟩ (Std.TreeMap.getD_eq_fallback missing)

/-- A stored key bounds `min` whether its bucket is the drained one or not. -/
theorem Holds.min_le_of_mem (holds : Holds cost blank active q) {k : Int64} (stored : k ∈ q.queues) :
    q.min ≤ k := by
  by_cases drained : some k = blank
  · have bound := holds.blankBound
    rwa [← drained] at bound
  · obtain ⟨path, member, same⟩ := (holds.buckets.ne_nil_iff k).mp (holds.occupied k stored drained)
    exact same ▸ holds.bound path member

theorem Holds.isEmpty_iff (holds : Holds cost none active q) : q.queues.isEmpty = true ↔ active = [] := by
  rw [Std.TreeMap.isEmpty_iff_forall_not_mem]
  constructor
  · intro vacant
    by_contra occupied
    obtain ⟨path, member⟩ := List.exists_mem_of_ne_nil active occupied
    exact vacant _ (holds.buckets.mem member)
  · intro drained k stored
    obtain ⟨path, member, _⟩ := (holds.buckets.ne_nil_iff k).mp (holds.occupied k stored (by simp))
    simp [drained] at member

theorem Holds.min_attained (holds : Holds cost none active q) (occupied : active ≠ []) :
    ∃ path ∈ active, bucketKey (cost path) = q.min := by
  rcases holds.attained with top | found
  · obtain ⟨path, member⟩ := List.exists_mem_of_ne_nil active occupied
    have bound := holds.bound path member
    have ceiling := Int64.le_maxValue (bucketKey (cost path))
    exact ⟨path, member, by
      simp only [Option.getD_none] at top
      grind⟩
  · exact found

theorem Holds.new : Holds cost none [] (new : PrioritizedQueue P) where
  buckets k := by simp [PrioritizedQueue.new]
  occupied k stored := by simp [PrioritizedQueue.new] at stored
  bound path member := by simp at member
  blankBound := by simp [PrioritizedQueue.new]
  attained := .inl rfl

theorem Holds.push (holds : Holds cost blank active q) (path : P) :
    Holds cost blank (active ++ [path]) (q.push cost path) := by
  have fresh : bucketKey (cost path) ∉ q.queues ∨ q.min ≤ bucketKey (cost path) := by
    by_cases stored : bucketKey (cost path) ∈ q.queues
    · exact .inr (holds.min_le_of_mem stored)
    · exact .inl stored
  constructor
  · intro k
    have bucket := holds.buckets k
    simp only [PrioritizedQueue.push, Std.TreeMap.getD_insert, List.filter_append]
    by_cases same : bucketKey (cost path) = k <;> simp [same, bucket]
  · intro k stored other
    simp only [PrioritizedQueue.push, Std.TreeMap.mem_insert, Std.TreeMap.getD_insert] at stored ⊢
    split
    · simp
    · rename_i apart
      exact holds.occupied k (stored.resolve_left apart) other
  · intro candidate member
    have previous := holds.bound candidate
    simp only [PrioritizedQueue.push]
    rcases List.mem_append.mp member with earlier | own
    · have bound := previous earlier
      split <;> grind
    · rw [List.mem_singleton.mp own]
      split
      · exact Int64.le_refl _
      · grind
  · have bound := holds.blankBound
    simp only [PrioritizedQueue.push]
    split <;> grind
  · simp only [PrioritizedQueue.push]
    split
    · exact .inr ⟨path, by simp, rfl⟩
    · rcases holds.attained with spare | ⟨witness, member, same⟩
      · exact .inl spare
      · exact .inr ⟨witness, by simp [member], same⟩

theorem Holds.withLazyArray (holds : Holds cost blank active q) (lazyArray : List P) :
    Holds cost blank active { q with lazyArray } :=
  ⟨holds.buckets, holds.occupied, holds.bound, holds.blankBound, holds.attained⟩

theorem Holds.useLazyArray (holds : Holds cost blank active q) :
    Holds cost blank (active ++ q.lazyArray) (useLazyArray cost q) := by
  suffices flushed : ∀ (paths active : List P) (q : PrioritizedQueue P), Holds cost blank active q →
      Holds cost blank (active ++ paths) (paths.foldl (PrioritizedQueue.push cost) q) by
    exact flushed q.lazyArray active _ (holds.withLazyArray [])
  intro paths
  induction paths with
  | nil =>
    intro active q holds
    simpa using holds
  | cons path rest ih =>
    intro active q holds
    simpa using ih (active ++ [path]) (q.push cost path) (holds.push path)

@[simp] theorem lazyArray_useLazyArray (q : PrioritizedQueue P) : (useLazyArray cost q).lazyArray = [] := by
  suffices kept : ∀ (paths : List P) (q : PrioritizedQueue P),
      (paths.foldl (push cost) q).lazyArray = q.lazyArray by
    exact kept q.lazyArray { q with lazyArray := [] }
  intro paths
  induction paths with
  | nil => exact fun _ => rfl
  | cons path rest ih => exact fun q => ih (q.push cost path)

/-- `empty` settles the queue as the machine does and answers the same. -/
theorem Refines.empty {machine : TwoList P} (refines : Refines cost q machine) :
    (empty cost q).1 = machine.settle.active.isEmpty ∧
      Refines cost (empty cost q).2 machine.settle := by
  obtain ⟨holds, pending⟩ := refines
  unfold PrioritizedQueue.empty TwoList.settle
  rcases machine with ⟨active, waiting⟩
  cases active with
  | cons path rest =>
    have occupied : q.queues.isEmpty = false :=
      Bool.eq_false_iff.mpr fun drained => List.cons_ne_nil path rest (holds.isEmpty_iff.mp drained)
    simp only [occupied, Bool.not_false, ↓reduceIte, List.isEmpty_cons, Bool.false_eq_true, true_and]
    exact ⟨holds, pending⟩
  | nil =>
    have drained : q.queues.isEmpty = true := holds.isEmpty_iff.mpr rfl
    simp only [drained, Bool.not_true, Bool.false_eq_true, ↓reduceIte, List.isEmpty_nil]
    simp only at pending
    subst pending
    cases waiting : q.lazyArray with
    | nil =>
      simp only [List.isEmpty_nil, Bool.not_true, Bool.false_eq_true, ↓reduceIte, true_and]
      exact ⟨holds, waiting⟩
    | cons path rest =>
      have reset : Holds cost none [] { q with min := Int64.maxValue } :=
        ⟨holds.buckets, holds.occupied, by simp, by simp, .inl rfl⟩
      have flushed := reset.useLazyArray
      simp only [List.nil_append, waiting] at flushed
      simp only [List.isEmpty_cons, Bool.not_false, ↓reduceIte, true_and]
      exact ⟨by simpa [waiting] using flushed, by simp⟩

theorem getD_erase_drained {min : Int64} (drained : q.queues.getD min [] = []) (k : Int64) :
    (q.queues.erase min).getD k [] = q.queues.getD k [] := by
  rw [Std.TreeMap.getD_erase]
  split
  · rename_i same
    rw [← Std.LawfulEqCmp.eq_of_compare same, drained]
  · rfl

theorem mem_erase_iff {min k : Int64} : k ∈ q.queues.erase min ↔ k ≠ min ∧ k ∈ q.queues := by
  rw [Std.TreeMap.mem_erase, ne_eq, Std.LawfulEqCmp.compare_eq_iff_eq, ← ne_eq, ne_comm]

theorem min_recomputeMin (q : PrioritizedQueue P) :
    (recomputeMin q).min = q.queues.minKey?.getD Int64.maxValue := by
  rw [recomputeMin, Std.TreeMap.minKey?_eq_head?_keys]

/-- With every stored bucket occupied, the least stored key is what `min` has to be. -/
theorem Holds.recomputeMin (buckets : Buckets cost active q)
    (occupied : ∀ k ∈ q.queues, q.queues.getD k [] ≠ []) :
    Holds cost none active (recomputeMin q) := by
  refine ⟨buckets, fun k stored _ => occupied k stored, ?_, Int64.le_maxValue _, ?_⟩
  · intro path member
    have stored := buckets.mem member
    cases least : q.queues.minKey? with
    | none =>
      have vacant := Std.TreeMap.minKey?_eq_none_iff.mp least
      exact absurd stored (Std.TreeMap.isEmpty_iff_forall_not_mem.mp vacant _)
    | some k =>
      obtain ⟨_, smallest⟩ := Std.TreeMap.minKey?_eq_some_iff_mem_and_forall.mp least
      simpa [min_recomputeMin, least] using
        (Std.LawfulOrderOrd.isLE_compare _ _).mp (smallest _ stored)
  · cases least : q.queues.minKey? with
    | none => exact .inl (by simp [min_recomputeMin, least])
    | some k =>
      obtain ⟨stored, _⟩ := Std.TreeMap.minKey?_eq_some_iff_mem_and_forall.mp least
      exact .inr (by
        simpa [min_recomputeMin, least] using (buckets.ne_nil_iff k).mp (occupied k stored))

theorem Holds.unblank {min : Int64} (holds : Holds cost (some min) active q)
    (occupied : q.queues.getD min [] ≠ []) : Holds cost none active q := by
  refine ⟨holds.buckets, ?_, holds.bound, Int64.le_maxValue _, .inr ?_⟩
  · intro k stored _
    by_cases same : k = min
    · exact same ▸ occupied
    · exact holds.occupied k stored (by simpa using same)
  · rcases holds.attained with same | attained
    · simpa [same] using (holds.buckets.ne_nil_iff min).mp occupied
    · exact attained

/-- A drained bucket is refilled by the flush or removed with its key. -/
theorem Holds.refill {min : Int64} (holds : Holds cost (some min) active q) :
    Holds cost none (active ++ q.lazyArray) (refill cost q min) := by
  have flushed := holds.useLazyArray
  unfold PrioritizedQueue.refill
  generalize PrioritizedQueue.useLazyArray cost q = q' at flushed
  dsimp only
  split
  · rename_i drained
    have drained : q'.queues.getD min [] = [] := by simpa using drained
    have buckets := fun k => (getD_erase_drained drained k).trans (flushed.buckets k)
    have occupied : ∀ k ∈ q'.queues.erase min, (q'.queues.erase min).getD k [] ≠ [] := by
      intro k stored
      obtain ⟨apart, stored⟩ := mem_erase_iff.mp stored
      rw [getD_erase_drained drained]
      exact flushed.occupied k stored (by simpa using apart)
    split
    · exact Holds.recomputeMin (q := { q' with queues := q'.queues.erase min }) buckets occupied
    · rename_i other
      refine ⟨buckets, fun k stored _ => occupied k stored, flushed.bound, Int64.le_maxValue _, .inr ?_⟩
      exact flushed.attained.resolve_left fun same => other same.symm
  · rename_i occupied
    exact flushed.unblank (by simpa using occupied)

@[simp] theorem lazyArray_refill (q : PrioritizedQueue P) (min : Int64) :
    (refill cost q min).lazyArray = [] := by
  unfold refill
  dsimp only
  split
  · split <;> simp [recomputeMin]
  · simp

/-- Taking a path of the smallest key leaves its bucket behind, empty or not. -/
theorem Holds.take {before after bucket : List P} {path : P}
    (holds : Holds cost none (before ++ path :: after) q) (own : bucketKey (cost path) = q.min)
    (left : bucket = (before ++ after).filter fun path => bucketKey (cost path) = q.min) :
    Holds cost (some q.min) (before ++ after) { q with queues := q.queues.insert q.min bucket } := by
  subst left
  refine ⟨?_, ?_, ?_, Int64.le_refl _, .inl rfl⟩
  · intro k
    have previous := holds.buckets k
    simp only [Std.TreeMap.getD_insert]
    by_cases same : q.min = k
    · simp [same]
    · have apart : bucketKey (cost path) ≠ k := own ▸ same
      simpa [same, apart] using previous
  · intro k stored other
    have apart : q.min ≠ k := fun same => other (congrArg some same.symm)
    simp only [Std.TreeMap.mem_insert, Std.TreeMap.getD_insert, Std.LawfulEqCmp.compare_eq_iff_eq, apart,
      false_or, ↓reduceIte] at stored ⊢
    exact holds.occupied k stored (by simp)
  · intro other member
    exact holds.bound other (by
      rcases List.mem_append.mp member with early | late
      · exact List.mem_append_left _ early
      · exact List.mem_append_right _ (List.mem_cons_of_mem _ late))

theorem Holds.min_eq {path : P} (holds : Holds cost none active q) (member : path ∈ active)
    (smallest : ∀ other ∈ active, priority cost path ≤ priority cost other) :
    bucketKey (cost path) = q.min := by
  obtain ⟨other, present, least⟩ := holds.min_attained (List.ne_nil_of_mem member)
  have below : bucketKey (cost path) ≤ bucketKey (cost other) :=
    Int64.le_iff_toInt_le.mpr (smallest other present)
  exact Int64.le_antisymm (least ▸ below) (holds.bound path member)

theorem priority_eq_iff {path other : P} :
    priority cost path = priority cost other ↔ bucketKey (cost path) = bucketKey (cost other) :=
  Int64.toInt_inj

end PrioritizedQueue

theorem Prioritized.popQueue_eq {kind : Prioritized} {before after : List P} {path : P}
    (first : kind.discipline = .oldest → before = []) (last : kind.discipline = .newest → after = []) :
    kind.popQueue (before ++ path :: after) = .ok (path, before ++ after) := by
  cases kind with
  | PrioritizedQueue => simp [first rfl, popQueue]
  | PrioritizedStack => simp [last rfl, popQueue]

namespace PrioritizedQueue

variable {F P : Type} [FloatOps F] {kind : Prioritized} {cost : P → F} {q : PrioritizedQueue P}

theorem Holds.popQueue_bucket {before after : List P} {path : P}
    (holds : Holds cost none (before ++ path :: after) q) (own : bucketKey (cost path) = q.min)
    (first : kind.discipline = .oldest → ∀ other ∈ before, priority cost other ≠ priority cost path)
    (last : kind.discipline = .newest → ∀ other ∈ after, priority cost other ≠ priority cost path) :
    kind.popQueue (q.queues.getD q.min []) =
      .ok (path, (before ++ after).filter fun path => bucketKey (cost path) = q.min) := by
  rw [holds.buckets, List.filter_append, List.filter_cons_of_pos (by simpa using own), List.filter_append]
  apply Prioritized.popQueue_eq
  · intro oldest
    rw [List.filter_eq_nil_iff]
    intro other member
    simpa [priority_eq_iff, own] using first oldest other member
  · intro newest
    rw [List.filter_eq_nil_iff]
    intro other member
    simpa [priority_eq_iff, own] using last newest other member

variable (kind)

/-- `pop` answers as the machine does and never throws. -/
theorem Refines.pop {machine : TwoList P} (refines : Refines cost q machine) :
    ∃ q', pop kind cost q = .ok ((machine.pop (priority cost) kind.discipline).1, q') ∧
      Refines cost q' (machine.pop (priority cost) kind.discipline).2 := by
  obtain ⟨answer, settled⟩ := refines.empty
  unfold PrioritizedQueue.pop
  rcases TwoList.pop_cases (priority cost) kind.discipline machine with
    ⟨drained, popped⟩ | ⟨path, before, after, split, smallest, first, last, popped⟩
  · rw [← TwoList.settle_contents] at drained
    have vacant : machine.settle.active = [] := (List.append_eq_nil_iff.mp drained).1
    rw [popped]
    exact ⟨_, by simp [answer, vacant], settled⟩
  · rw [split] at answer smallest
    have nothing : (PrioritizedQueue.empty cost q).1 = false := by simp [answer]
    generalize PrioritizedQueue.empty cost q = outcome at nothing settled
    obtain ⟨flag, q⟩ := outcome
    simp only at nothing settled
    subst nothing
    obtain ⟨holds, pending⟩ := settled
    rw [split] at holds
    have own := holds.min_eq (by simp) smallest
    have left := holds.take own rfl
    simp only [Bool.false_eq_true, ↓reduceIte, holds.popQueue_bucket own first last]
    rw [popped]
    by_cases drained : (before ++ after).filter (fun path => bucketKey (cost path) = q.min) = []
    · have none : ¬ ((before ++ after).any fun other => priority cost other = priority cost path) = true := by
        simpa [List.filter_eq_nil_iff, priority_eq_iff, own] using drained
      rw [drained] at left ⊢
      rw [if_neg none]
      exact ⟨_, rfl, by simpa [pending] using left.refill, by simp⟩
    · have some : ((before ++ after).any fun other => priority cost other = priority cost path) = true := by
        obtain ⟨other, member⟩ := List.exists_mem_of_ne_nil _ drained
        obtain ⟨inside, same⟩ := List.mem_filter.mp member
        exact List.any_eq_true.mpr ⟨other, inside, by simpa [priority_eq_iff, own] using same⟩
      rw [if_pos some, if_neg (by simpa using drained)]
      exact ⟨_, rfl, left.unblank (by simpa using drained), pending⟩

theorem Refines.call {machine : TwoList P} (refines : Refines cost q machine) (request : QueueCall P) :
    ∃ q', call kind cost q request =
        .ok ((machine.call (priority cost) kind.discipline request).1, q') ∧
      Refines cost q' (machine.call (priority cost) kind.discipline request).2 := by
  cases request with
  | push path => exact ⟨_, rfl, refines.holds.push path, refines.pending⟩
  | pushLazy path =>
    exact ⟨_, rfl, refines.holds.withLazyArray _, congrArg (· ++ [path]) refines.pending⟩
  | pop =>
    obtain ⟨q', popped, after⟩ := refines.pop kind
    exact ⟨q', by simp [PrioritizedQueue.call, popped, Except.map, TwoList.call], after⟩
  | empty =>
    obtain ⟨answer, after⟩ := refines.empty
    exact ⟨_, by simp [PrioritizedQueue.call, answer, TwoList.call, TwoList.empty], after⟩
  | clear => exact ⟨_, rfl, .new, rfl⟩

theorem Refines.run {machine : TwoList P} (refines : Refines cost q machine) (calls : List (QueueCall P)) :
    ∃ q', run kind cost q calls = .ok ((machine.run (priority cost) kind.discipline calls).1, q') ∧
      Refines cost q' (machine.run (priority cost) kind.discipline calls).2 := by
  induction calls generalizing q machine with
  | nil => exact ⟨q, rfl, refines⟩
  | cons request calls ih =>
    obtain ⟨middle, answered, between⟩ := refines.call kind request
    obtain ⟨final, replied, after⟩ := ih between
    exact ⟨final, by simp [PrioritizedQueue.run, TwoList.run, answered, replied], after⟩

theorem Refines.new : Refines cost (new : PrioritizedQueue P) TwoList.new := ⟨.new, rfl⟩

theorem Refines.min_eq {machine : TwoList P} (refines : Refines cost q machine) :
    q.min = q.queues.minKey?.getD Int64.maxValue := by
  obtain ⟨holds, _⟩ := refines
  cases least : q.queues.minKey? with
  | none =>
    have vacant := holds.isEmpty_iff.mp (Std.TreeMap.minKey?_eq_none_iff.mp least)
    rcases holds.attained with top | ⟨path, member, _⟩
    · exact top
    · simp [vacant] at member
  | some k =>
    obtain ⟨stored, smallest⟩ := Std.TreeMap.minKey?_eq_some_iff_mem_and_forall.mp least
    obtain ⟨path, member, same⟩ := (holds.buckets.ne_nil_iff k).mp (holds.occupied k stored (by simp))
    obtain ⟨other, present, reached⟩ := holds.min_attained (List.ne_nil_of_mem member)
    have above : k ≤ q.min :=
      (Std.LawfulOrderOrd.isLE_compare _ _).mp (smallest _ (reached ▸ holds.buckets.mem present))
    exact Int64.le_antisymm (holds.min_le_of_mem stored) above

/-- Both prioritized containers are the two-list machine: whatever is called on
a new one, nothing is thrown and the answers are those of the machine. No path
is lost or returned twice, no bucket is empty between calls and `min` is the
smallest key. -/
theorem run_refines (cost : P → F) (calls : List (QueueCall P)) :
    ∃ q, run kind cost new calls =
        .ok ((TwoList.new.run (priority cost) kind.discipline calls).1, q) ∧
      (TwoList.pushed calls).Perm
        (TwoList.returned (TwoList.new.run (priority cost) kind.discipline calls).1 ++
          TwoList.new.discarded (priority cost) kind.discipline calls ++
          (TwoList.new.run (priority cost) kind.discipline calls).2.contents) ∧
      Refines cost q (TwoList.new.run (priority cost) kind.discipline calls).2 ∧
      (∀ k ∈ q.queues, q.queues.getD k [] ≠ []) ∧
      q.min = q.queues.minKey?.getD Int64.maxValue := by
  obtain ⟨q, replied, refines⟩ := (Refines.new : Refines cost new TwoList.new).run kind calls
  refine ⟨q, replied, ?_, refines, ?_, refines.min_eq⟩
  · simpa [TwoList.new, TwoList.contents] using
      TwoList.run_conserves (priority cost) kind.discipline calls TwoList.new
  · exact fun k stored => refines.holds.occupied k stored (by simp)

end PrioritizedQueue

end Goap
