import Goap.Comparer.FunctionStateMeter
import Goap.Foundation.HammingRatio
import Goap.State.SameEntries
import Mathlib.Data.List.Nodup
import Mathlib.Data.Finset.Dedup

namespace Goap.ExactStateComparer

open FloatOps Foundation

/-- Exact rational arithmetic that reads the two tolerances of `floatEqual` as 0. -/
@[reducible] def exactComparison : FloatOps ℚ :=
  { (inferInstance : FloatOps ℚ) with lit := fun value => if |value| ≤ 1 / 2 ^ 23 then 0 else value }

section

attribute [local instance] exactComparison

theorem lit_intCast (n : ℤ) : (lit (n : ℚ) : ℚ) = n := by
  change (if |(n : ℚ)| ≤ 1 / 2 ^ 23 then 0 else (n : ℚ)) = n
  split
  · rename_i small
    have below : |(n : ℚ)| < 1 := small.trans_lt (by norm_num)
    rw [← Int.cast_abs] at below
    have zero : |n| < 1 := by exact_mod_cast below
    rw [Int.abs_lt_one_iff.mp zero, Int.cast_zero]
  · rfl

theorem lit_natCast (n : Nat) : (lit (n : ℚ) : ℚ) = n := by
  exact_mod_cast lit_intCast n

theorem exactOn_all : ExactOn fun _ : ℚ => True := by
  intro x y _ _
  have epsilon : (BasicMath.GOAP_FLT_EPSILON : ℚ) = 0 := by
    change (if |(1 / 2 ^ 23 : ℚ)| ≤ 1 / 2 ^ 23 then 0 else (1 / 2 ^ 23 : ℚ)) = 0
    norm_num
  have least : (BasicMath.GOAP_FLT_MIN : ℚ) = 0 := by
    change (if |(1 / 2 ^ 126 : ℚ)| ≤ 1 / 2 ^ 23 then 0 else (1 / 2 ^ 126 : ℚ)) = 0
    norm_num
  rw [BasicMath.floatEqual, epsilon, least]
  change (decide (|x - y| ≤ 0 * (|x| + |y|) * _) || decide (|x - y| < 0)) = true ↔ _
  simp [sub_eq_zero]

theorem within_all (state : State ℚ) : state.Within fun _ => True :=
  fun _ _ => ⟨fun _ _ => trivial, fun _ _ => trivial⟩

def differs (state1 : State ℚ) (entry : StateValue ℚ × StateValue ℚ) : Bool :=
  (state1.find? entry.1).any fun value1 => !value1.equals entry.2

def shares (state1 : State ℚ) (entry : StateValue ℚ × StateValue ℚ) : Bool := (state1.find? entry.1).isSome

theorem compareEntry_eq (state1 : State ℚ) (acc : ℚ × Nat) (entry : StateValue ℚ × StateValue ℚ) :
    compareEntry state1 acc entry =
      (acc.1 + if differs state1 entry then 1 else 0, acc.2 + if shares state1 entry then 1 else 0) := by
  have one : (lit 1 : ℚ) = 1 := by exact_mod_cast lit_natCast 1
  unfold compareEntry differs shares
  cases state1.find? entry.1 with
  | none => simp
  | some value1 => cases equal : value1.equals entry.2 <;> simp [equal, one]

theorem foldl_compareEntry (state1 : State ℚ) (entries : List (StateValue ℚ × StateValue ℚ)) (acc : ℚ × Nat) :
    entries.foldl (compareEntry state1) acc =
      (acc.1 + entries.countP (differs state1), acc.2 + entries.countP (shares state1)) := by
  induction entries generalizing acc with
  | nil => simp
  | cons entry rest ih =>
    rw [List.foldl_cons, ih, compareEntry_eq, List.countP_cons, List.countP_cons]
    push_cast
    rw [Prod.mk.injEq]
    constructor <;> ring

variable {state : State ℚ} {keys : Finset (StateValue ℚ)}

def Covers (keys : Finset (StateValue ℚ)) (state : State ℚ) : Prop := ∀ entry ∈ state.data, entry.1 ∈ keys

theorem find?_eq_some {k value : StateValue ℚ} : state.find? k = some value ↔ (k, value) ∈ state.data :=
  State.find?_eq_some_iff exactOn_all (within_all state) fun _ _ => trivial

theorem equals_iff_eq {value other : StateValue ℚ} : value.equals other = true ↔ value = other :=
  StateValue.equals_iff exactOn_all (fun _ _ => trivial) fun _ _ => trivial

/-- Entries are counted by their keys. -/
theorem countP_eq_card (covers : Covers keys state) (counted : StateValue ℚ × StateValue ℚ → Bool)
    (chosen : StateValue ℚ → Prop) [DecidablePred chosen]
    (same : ∀ entry ∈ state.data, counted entry = true ↔ chosen entry.1) :
    state.data.countP counted = (keys.filter fun k => state.find? k ≠ none ∧ chosen k).card := by
  have distinct : ((state.data.filter counted).map Prod.fst).Nodup := by
    have apart : (state.data.map Prod.fst).Nodup :=
      List.pairwise_map.mpr (State.keys_apart exactOn_all (within_all state))
    exact apart.sublist ((List.filter_sublist).map _)
  have image : keys.filter (fun k => state.find? k ≠ none ∧ chosen k) =
      ((state.data.filter counted).map Prod.fst).toFinset := by
    ext k
    simp only [Finset.mem_filter, List.mem_toFinset, List.mem_map, List.mem_filter]
    constructor
    · intro selected
      obtain ⟨inside, there, picked⟩ := selected
      obtain ⟨value, found⟩ := Option.ne_none_iff_exists'.mp there
      have member := find?_eq_some.mp found
      exact ⟨(k, value), ⟨member, (same _ member).mpr picked⟩, rfl⟩
    · intro present
      obtain ⟨entry, ⟨member, picked⟩, rfl⟩ := present
      have found : state.find? entry.1 = some entry.2 := find?_eq_some.mpr member
      exact ⟨covers entry member, by simp [found], (same entry member).mp picked⟩
  rw [image, List.toFinset_card_of_nodup distinct, List.length_map, List.countP_eq_length_filter]

theorem size_eq_card (covers : Covers keys state) : state.size = (keys.filter fun k => state.find? k ≠ none).card := by
  have counted := countP_eq_card covers (fun _ => true) (fun _ => True) (by simp)
  simpa [State.size] using counted

variable {state1 state2 : State ℚ}

theorem shares_eq_card (covers : Covers keys state2) :
    state2.data.countP (shares state1) = (common keys state2.find? state1.find?).card := by
  apply countP_eq_card covers
  intro entry _
  rw [shares, Option.isSome_iff_ne_none]

theorem differs_eq_card (covers : Covers keys state2) : state2.data.countP (differs state1) =
    ((common keys state2.find? state1.find?).filter fun k => state2.find? k ≠ state1.find? k).card := by
  rw [countP_eq_card covers (differs state1) (fun k => state1.find? k ≠ none ∧ state2.find? k ≠ state1.find? k),
    common, Finset.filter_filter]
  · simp only [and_assoc]
  · intro entry member
    have own : state2.find? entry.1 = some entry.2 := find?_eq_some.mpr member
    rw [own, differs]
    cases state1.find? entry.1 with
    | none => simp
    | some value1 =>
      simp only [Option.any_some, Bool.not_eq_true', ← Bool.not_eq_true, equals_iff_eq]
      simp [eq_comm]

theorem distance_eq_hammingRatio (covers1 : Covers keys state1) (covers2 : Covers keys state2) :
    distance state1 state2 = hammingRatio keys state2.find? state1.find? := by
  have zero : (lit 0 : ℚ) = 0 := by exact_mod_cast lit_natCast 0
  have union : ((differing keys state2.find? state1.find?).card : ℚ) + (common keys state2.find? state1.find?).card =
      (occupied keys state2.find? state1.find?).card +
        ((common keys state2.find? state1.find?).filter fun k => state2.find? k ≠ state1.find? k).card := by
    exact_mod_cast card_differing_add
  have parts : ((occupied keys state2.find? state1.find?).card : ℚ) + (common keys state2.find? state1.find?).card =
      state2.size + state1.size := by
    rw [size_eq_card covers1, size_eq_card covers2]
    exact_mod_cast card_occupied_add
  simp only [distance, foldl_compareEntry, shares_eq_card covers2, differs_eq_card covers2, lit_intCast, lit_natCast,
    zero, hammingRatio]
  push_cast
  congr 1 <;> linarith

def allKeys (a b c : State ℚ) : Finset (StateValue ℚ) := ((a.data ++ b.data ++ c.data).map Prod.fst).toFinset

theorem covers_allKeys {a b c : State ℚ} (one : ∀ entry ∈ state.data, entry ∈ a.data ++ b.data ++ c.data) :
    Covers (allKeys a b c) state :=
  fun entry member => List.mem_toFinset.mpr (List.mem_map_of_mem (one entry member))

theorem find?_agree_iff (covers1 : Covers keys state1) (covers2 : Covers keys state2) :
    (∀ k ∈ keys, state2.find? k = state1.find? k) ↔ state1.equals state2 = true := by
  rw [State.equals_iff_sameEntries exactOn_all (within_all state1) (within_all state2)]
  constructor
  · intro agree
    rw [State.SameEntries, List.perm_ext_iff_of_nodup (State.nodup exactOn_all (within_all state1))
      (State.nodup exactOn_all (within_all state2))]
    intro entry
    constructor
    · intro member
      have found : state1.find? entry.1 = some entry.2 := find?_eq_some.mpr member
      exact find?_eq_some.mp ((agree _ (covers1 entry member)).trans found)
    · intro member
      have found : state2.find? entry.1 = some entry.2 := find?_eq_some.mpr member
      exact find?_eq_some.mp ((agree _ (covers2 entry member)).symm.trans found)
  · intro same k inside
    exact same.symm.find?_eq exactOn_all (within_all state2) fun _ _ => trivial

/-- `distance` is a metric: between 0 and 1, symmetric, 0 exactly between equal states,
and no longer than a detour. (Of two empty states it would be 0 / 0.) -/
theorem distance_metric (a b c : State ℚ) :
    (0 ≤ distance a b ∧ distance a b ≤ 1) ∧ distance a b = distance b a ∧
      (distance a b = 0 ↔ a.equals b = true) ∧ distance a c ≤ distance a b + distance b c := by
  have covers1 : Covers (allKeys a b c) a := covers_allKeys fun entry member => by simp [member]
  have covers2 : Covers (allKeys a b c) b := covers_allKeys fun entry member => by simp [member]
  have covers3 : Covers (allKeys a b c) c := covers_allKeys fun entry member => by simp [member]
  rw [distance_eq_hammingRatio covers1 covers2, distance_eq_hammingRatio covers2 covers1,
    distance_eq_hammingRatio covers1 covers3, distance_eq_hammingRatio covers2 covers3]
  refine ⟨⟨hammingRatio_nonneg, hammingRatio_le_one⟩, hammingRatio_comm, ?_, ?_⟩
  · rw [hammingRatio_eq_zero_iff]
    exact find?_agree_iff covers1 covers2
  · rw [add_comm]
    exact hammingRatio_triangle

end

end Goap.ExactStateComparer
