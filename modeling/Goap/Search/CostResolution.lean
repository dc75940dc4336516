import Goap.Foundation.Run
import Goap.Foundation.Truncation
import Goap.Search.PrioritizedQueue

namespace Goap.PrioritizedQueue

open FloatOps Foundation

/-- The buckets that can be wider than 0.01: numbers above −1 and below 1 have the
integer part 0, and the ends of the range take whatever lies beyond them. -/
def Wide (k : Int64) : Prop := k = 0 ∨ k = Int64.minValue ∨ k = Int64.maxValue

theorem ofIntClamp_mono {i j : ℤ} (le : i ≤ j) : Int64.ofIntClamp i ≤ Int64.ofIntClamp j := by
  unfold Int64.ofIntClamp
  split
  · split
    · split
      · split
        · rw [Int64.le_iff_toInt_le, Int64.toInt_ofIntLE, Int64.toInt_ofIntLE]
          exact le
        · exact Int64.le_maxValue _
      · omega
    · split
      · rw [dif_neg (by omega)]
        exact Int64.le_refl _
      · omega
  · exact Int64.minValue_le _

theorem toInt_ofIntClamp {i : ℤ} (narrow : ¬ Wide (Int64.ofIntClamp i)) : (Int64.ofIntClamp i).toInt = i := by
  by_cases low : Int64.minValue.toInt ≤ i
  · by_cases high : i ≤ Int64.maxValue.toInt
    · exact Int64.toInt_ofIntClamp low high
    · exact absurd (.inr (.inr (by rw [Int64.ofIntClamp, dif_pos low, dif_neg high]))) narrow
  · exact absurd (.inr (.inl (by rw [Int64.ofIntClamp, dif_neg low]))) narrow

theorem bucketKey_eq (cost : ℚ) : bucketKey cost = Int64.ofIntClamp (truncate (100 * cost + 1 / 2)) :=
  congrArg Int64.ofIntClamp (truncate_rat _)

theorem bucketKey_mono {cost other : ℚ} (le : cost ≤ other) : bucketKey cost ≤ bucketKey other := by
  rw [bucketKey_eq, bucketKey_eq]
  apply ofIntClamp_mono
  apply truncate_mono
  linarith

theorem sub_lt_of_bucketKey_eq {cost other : ℚ} (same : bucketKey cost = bucketKey other)
    (narrow : ¬ Wide (bucketKey cost)) : cost - other < 1 / 100 := by
  have narrow' : ¬ Wide (bucketKey other) := same ▸ narrow
  rw [bucketKey_eq] at narrow narrow'
  rw [bucketKey_eq, bucketKey_eq] at same
  have truncated : truncate (100 * cost + 1 / 2) = truncate (100 * other + 1 / 2) := by
    rw [← toInt_ofIntClamp narrow, ← toInt_ofIntClamp narrow', same]
  have nonzero : truncate (100 * cost + 1 / 2) ≠ 0 := by
    intro zero
    rw [zero] at narrow
    exact narrow (.inl rfl)
  have near := sub_lt_one_of_truncate_eq truncated nonzero
  linarith

variable {P : Type} {kind : Prioritized} {cost : P → ℚ} {q : PrioritizedQueue P}

/-- A path stands in one of the buckets of `_queues`. -/
def Held (q : PrioritizedQueue P) (path : P) : Prop := ∃ k ∈ q.queues, path ∈ q.queues.getD k []

def step (kind : Prioritized) (cost : P → ℚ) (q : PrioritizedQueue P) (request : QueueCall P) :
    Option (QueueReply P × PrioritizedQueue P) :=
  (call kind cost q request).toOption

/-- The answer to a call is no path that costs 0.01 or more above one that `_queues`
held when the call chose it. -/
def Resolves (cost : P → ℚ) (q : PrioritizedQueue P) (_ : QueueCall P) (reply : QueueReply P)
    (_ : PrioritizedQueue P) : Prop :=
  ∀ path, reply = .popped (some path) → ∀ other, Held (empty cost q).2 other → cost path - cost other < 1 / 100

/-- When a wide bucket is the least one, the path at its end that is served costs less
than 0.01 above every path of the bucket. -/
def ServesNear (kind : Prioritized) (cost : P → ℚ) (q : PrioritizedQueue P) (request : QueueCall P)
    (_ : QueueReply P) (_ : PrioritizedQueue P) : Prop :=
  request = .pop → Wide (empty cost q).2.min → ∀ path rest,
    kind.popQueue ((empty cost q).2.queues.getD (empty cost q).2.min []) = .ok (path, rest) →
    ∀ other ∈ (empty cost q).2.queues.getD (empty cost q).2.min [], cost path - cost other < 1 / 100

theorem Holds.held_iff {active : List P} (holds : Holds cost none active q) (path : P) : Held q path ↔ path ∈ active := by
  constructor
  · intro held
    obtain ⟨k, _, member⟩ := held
    rw [holds.buckets k] at member
    exact (List.mem_filter.mp member).1
  · intro member
    refine ⟨bucketKey (cost path), holds.buckets.mem member, ?_⟩
    rw [holds.buckets, List.mem_filter]
    exact ⟨member, by simp⟩

theorem popQueue_mem {bucket rest : List P} {path : P} (served : kind.popQueue bucket = .ok (path, rest)) :
    path ∈ bucket := by
  cases kind with
  | PrioritizedQueue =>
    cases bucket with
    | nil => cases served
    | cons first others =>
      cases served
      exact List.mem_cons_self
  | PrioritizedStack =>
    cases last : bucket.getLast? with
    | none => simp [Prioritized.popQueue, last] at served
    | some newest =>
      simp only [Prioritized.popQueue, last, Except.ok.injEq, Prod.mk.injEq] at served
      exact served.1 ▸ List.mem_of_getLast? last

/-- `pop` answers with the path that the least bucket serves. -/
theorem pop_answer_iff {machine : TwoList P} (refines : Refines cost q machine) {path : P} :
    (∃ q', pop kind cost q = .ok (some path, q')) ↔
      ∃ rest, kind.popQueue ((empty cost q).2.queues.getD (empty cost q).2.min []) = .ok (path, rest) := by
  obtain ⟨answer, settled, _⟩ := refines.empty
  unfold pop
  generalize empty cost q = outcome at answer settled
  obtain ⟨nothing, q⟩ := outcome
  simp only at answer settled ⊢
  subst answer
  split
  · rename_i vacant
    rw [List.isEmpty_iff] at vacant
    constructor
    · intro popped
      obtain ⟨_, same⟩ := popped
      cases same
    · intro served
      obtain ⟨_, served⟩ := served
      have member := popQueue_mem served
      rw [settled.buckets, vacant] at member
      cases member
  · cases served : kind.popQueue (q.queues.getD q.min []) with
    | error e => simp
    | ok result =>
      obtain ⟨value, queue⟩ := result
      dsimp only
      split <;> simp

/-- The cost law holds for one call exactly if it holds inside a wide bucket. -/
theorem resolves_iff {machine : TwoList P} (refines : Refines cost q machine) {request : QueueCall P}
    {reply : QueueReply P} {q' : PrioritizedQueue P} (ran : step kind cost q request = some (reply, q')) :
    Resolves cost q request reply q' ↔ ServesNear kind cost q request reply q' := by
  obtain ⟨_, settled, _⟩ := refines.empty
  constructor
  · intro resolves asked _ path rest served other member
    subst asked
    obtain ⟨q'', popped⟩ := (pop_answer_iff refines).mpr ⟨rest, served⟩
    have answered : reply = .popped (some path) := by
      simp only [step, call, popped, Except.map, Except.toOption, Option.some.injEq, Prod.mk.injEq] at ran
      exact ran.1.symm
    have occupied : (empty cost q).2.min ∈ (empty cost q).2.queues := by
      by_contra missing
      rw [Std.TreeMap.getD_eq_fallback missing] at member
      cases member
    exact resolves path answered other ⟨_, occupied, member⟩
  · intro near path answered other held
    subst answered
    have asked : request = .pop ∧ ∃ q'', pop kind cost q = .ok (some path, q'') := by
      cases request with
      | push _ | pushLazy _ | empty | clear => cases ran
      | pop =>
        refine ⟨rfl, ?_⟩
        cases outcome : pop kind cost q with
        | error e => simp [step, call, outcome, Except.map, Except.toOption] at ran
        | ok result =>
          obtain ⟨answer, after⟩ := result
          simp only [step, call, outcome, Except.map, Except.toOption, Option.some.injEq, Prod.mk.injEq,
            QueueReply.popped.injEq] at ran
          exact ⟨after, by rw [ran.1]⟩
    obtain ⟨asked, popped⟩ := asked
    obtain ⟨rest, served⟩ := (pop_answer_iff refines).mp popped
    have own := popQueue_mem served
    rw [settled.buckets, List.mem_filter, decide_eq_true_eq] at own
    have inside := (settled.held_iff other).mp held
    rcases lt_or_ge (cost path) (cost other) with below | above
    · linarith
    · -- a path that costs no more than the one of the least bucket is in that bucket too
      have same : bucketKey (cost path) = bucketKey (cost other) :=
        Int64.le_antisymm (own.2 ▸ settled.bound other inside) (bucketKey_mono above)
      by_cases wide : Wide (empty cost q).2.min
      · apply near asked wide path rest served
        rw [settled.buckets, List.mem_filter, decide_eq_true_eq]
        exact ⟨inside, same.symm.trans own.2⟩
      · exact sub_lt_of_bucketKey_eq same (own.2 ▸ wide)

theorem Refines.step {machine : TwoList P} (refines : Refines cost q machine) {request : QueueCall P}
    {reply : QueueReply P} {q' : PrioritizedQueue P} (ran : step kind cost q request = some (reply, q')) :
    ∃ machine', Refines cost q' machine' := by
  obtain ⟨q'', answered, after⟩ := refines.call kind request
  simp only [PrioritizedQueue.step, answered, Except.toOption, Option.some.injEq, Prod.mk.injEq] at ran
  exact ⟨_, ran.2 ▸ after⟩

/-- In every run `pop` answers with a path less than 0.01 above every path then held,
exactly if every pop does so that serves a wide bucket, inside that bucket. -/
theorem allSteps_resolves_iff (kind : Prioritized) (cost : P → ℚ) (calls : List (QueueCall P)) :
    AllSteps (step kind cost) (Resolves cost) new calls ↔
      AllSteps (step kind cost) (ServesNear kind cost) new calls := by
  apply allSteps_iff (fun q => ∃ machine, Refines cost q machine)
  · intro q request reply q' holds ran
    obtain ⟨machine, refines⟩ := holds
    exact resolves_iff refines ran
  · intro q request reply q' holds ran _
    obtain ⟨machine, refines⟩ := holds
    exact refines.step ran
  · exact ⟨_, .new⟩

/-- The queue serves the cost 0.004, which came first, while -0.01 waits in the same bucket. -/
theorem allSteps_resolves_fails :
    ¬ AllSteps (step .PrioritizedQueue id) (Resolves id) new [.push (1 / 250 : ℚ), .push (-1 / 100), .pop] := by
  intro all
  have pushed : AllSteps (step .PrioritizedQueue id) (Resolves id)
      ((new.push id (1 / 250 : ℚ)).push id (-1 / 100)) [.pop] :=
    ((allSteps_cons rfl).mp ((allSteps_cons rfl).mp all).2).2
  have refines : Refines id ((new.push id (1 / 250 : ℚ)).push id (-1 / 100)) ⟨[1 / 250, -1 / 100], []⟩ :=
    ⟨(Holds.new.push (1 / 250)).push (-1 / 100), rfl⟩
  obtain ⟨q', popped, _⟩ := refines.pop .PrioritizedQueue
  have first : (TwoList.pop (priority id) .oldest ⟨[1 / 250, (-1 / 100 : ℚ)], []⟩).1 = some (1 / 250) := by
    decide +kernel
  rw [Prioritized.discipline, first] at popped
  have held : Held (empty id ((new.push id (1 / 250 : ℚ)).push id (-1 / 100))).2 (-1 / 100) :=
    (refines.empty.2.holds.held_iff _).mpr (by simp [TwoList.settle])
  have near := ((allSteps_cons (by rw [step, call, popped]; rfl)).mp pushed).1 (1 / 250) rfl _ held
  norm_num at near

end Goap.PrioritizedQueue
