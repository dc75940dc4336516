import Goap.Foundation.Grouping
import Goap.Search.PrioritizedQueue

namespace Goap.PrioritizedQueue

open FloatOps Foundation

variable {F P : Type} [FloatOps F] {cost : P → F} {q : PrioritizedQueue P} {machine : TwoList P}

/-- `size()`: the number of buckets. -/
def size (q : PrioritizedQueue P) : Nat := q.queues.size

/-- The number of paths that wait after a call, from that before and the answer. -/
def tally (count : Nat) : QueueCall P → QueueReply P → Nat
  | .push _, _ => count + 1
  | .pushLazy _, _ => count + 1
  | .pop, .popped (some _) => count - 1
  | .clear, _ => 0
  | _, _ => count

def waiting (count : Nat) : List (QueueCall P) → List (QueueReply P) → Nat
  | call :: calls, reply :: replies => waiting (tally count call reply) calls replies
  | _, _ => count

/-- `size` is the number of waiting paths, and `empty` tells whether it is 0. -/
def CountersAgree (cost : P → F) (count : Nat) (q : PrioritizedQueue P) : Prop :=
  q.size = count ∧ ((empty cost q).1 = true ↔ q.size = 0)

theorem tally_call (kind : Prioritized) (request : QueueCall P) :
    tally machine.contents.length request (machine.call (priority cost) kind.discipline request).1 =
      (machine.call (priority cost) kind.discipline request).2.contents.length := by
  cases request with
  | push path => simp [tally, TwoList.call, TwoList.push, TwoList.contents]; omega
  | pushLazy path => simp [tally, TwoList.call, TwoList.pushLazy, TwoList.contents]; omega
  | pop =>
    rcases TwoList.pop_contents (priority cost) kind.discipline machine with
      ⟨drained, nothing, after⟩ | ⟨path, popped, moved⟩
    · simp [tally, TwoList.call, nothing, after, drained]
    · simp [tally, TwoList.call, popped, moved.length_eq]
  | empty => simp [tally, TwoList.call, TwoList.empty, TwoList.settle_contents]
  | clear => rfl

theorem waiting_run (kind : Prioritized) (calls : List (QueueCall P)) (machine : TwoList P) :
    waiting machine.contents.length calls (machine.run (priority cost) kind.discipline calls).1 =
      (machine.run (priority cost) kind.discipline calls).2.contents.length := by
  induction calls generalizing machine with
  | nil => rfl
  | cons request rest ih =>
    rw [TwoList.run, waiting, tally_call]
    exact ih _

theorem Holds.groups {active : List P} (holds : Holds cost none active q) :
    Groups (fun path => bucketKey (cost path)) active q.queues.keys := by
  refine ⟨Std.TreeMap.nodup_keys, ?_⟩
  intro k
  rw [Std.TreeMap.mem_keys, ← holds.buckets.ne_nil_iff]
  constructor
  · exact fun stored => holds.occupied k stored (by simp)
  · intro occupied
    by_contra missing
    exact occupied (Std.TreeMap.getD_eq_fallback missing)

/-- The counters agree with the content exactly if nothing is pending and no two
paths share a bucket. -/
theorem Refines.countersAgree_iff (refines : Refines cost q machine) :
    CountersAgree cost machine.contents.length q ↔
      q.lazyArray = [] ∧ ∀ k, (q.queues.getD k []).length ≤ 1 := by
  obtain ⟨holds, pending⟩ := refines
  have grouped := holds.groups
  have size : q.size = q.queues.keys.length := Std.TreeMap.length_keys.symm
  have fewer := grouped.length_le
  have single : (∀ k, (q.queues.getD k []).length ≤ 1) ↔ q.queues.keys.length = machine.active.length := by
    rw [grouped.length_eq_iff]
    simp only [holds.buckets _, group]
  have count : machine.contents.length = machine.active.length + machine.pending.length := List.length_append
  rw [CountersAgree, single, pending]
  constructor
  · intro agree
    obtain ⟨same, _⟩ := agree
    have none : machine.pending.length = 0 := by omega
    exact ⟨List.length_eq_zero_iff.mp none, by omega⟩
  · intro both
    obtain ⟨none, distinct⟩ := both
    have zero : machine.pending.length = 0 := List.length_eq_zero_iff.mpr none
    refine ⟨by omega, ?_⟩
    rw [(Refines.empty ⟨holds, pending⟩).1, List.isEmpty_iff, ← List.length_eq_zero_iff, size, distinct,
      TwoList.settle]
    split <;> simp_all

/-- Whatever is called on a new queue, its counters agree with its content exactly if
no path pushed by `pushLazy` still waits and no two paths share a bucket. -/
theorem run_countersAgree_iff (kind : Prioritized) (cost : P → F) (calls : List (QueueCall P)) : ∃ replies q,
    run kind cost new calls = .ok (replies, q) ∧
      (CountersAgree cost (waiting 0 calls replies) q ↔
        q.lazyArray = [] ∧ ∀ k, (q.queues.getD k []).length ≤ 1) := by
  obtain ⟨q, replied, refines⟩ := (Refines.new : Refines cost new TwoList.new).run kind calls
  refine ⟨_, q, replied, ?_⟩
  have count : waiting 0 calls (TwoList.new.run (priority cost) kind.discipline calls).1 = _ :=
    waiting_run kind calls TwoList.new
  rw [← refines.countersAgree_iff, ← count]

/-- Two paths of one cost are two paths in one bucket. -/
theorem run_countersAgree_fails : ∃ replies q,
    run .PrioritizedQueue id new [.push (1 : ℚ), .push 1] = .ok (replies, q) ∧
      ¬ CountersAgree id (waiting 0 [.push (1 : ℚ), .push 1] replies) q := by
  refine ⟨_, _, rfl, ?_⟩
  intro agree
  obtain ⟨same, _⟩ := agree
  exact absurd same (by decide +kernel)

end Goap.PrioritizedQueue
