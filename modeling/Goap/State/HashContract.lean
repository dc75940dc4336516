import Goap.Foundation.Matching
import Goap.State.State

/-! What the hash of a state depends on, against what equality of states looks
at. The two traversals agree on keys but not on costs: equality leaves the cost
out and the hash starts from it. -/

namespace Goap

open FloatOps Foundation

variable {F : Type} [FloatOps F]

def xorWords (words : List UInt64) : UInt64 := words.foldr (· ^^^ ·) 0

theorem xorWords_perm {words other : List UInt64} (same : words.Perm other) :
    xorWords words = xorWords other := by
  induction same with
  | nil => rfl
  | cons word _ ih => exact congrArg (word ^^^ ·) ih
  | swap first second rest =>
    change second ^^^ (first ^^^ xorWords rest) = first ^^^ (second ^^^ xorWords rest)
    rw [← UInt64.xor_assoc, ← UInt64.xor_assoc, UInt64.xor_comm second first]
  | trans _ _ first second => exact first.trans second

namespace State

/-- What the keys contribute to the hash. -/
def keyWord (state : State F) : UInt64 := xorWords (state.data.map fun entry => entry.1.hash)

/-- What the cost and the values contribute to the hash. -/
def payloadWord (state : State F) : UInt64 :=
  BasicMath.hash [state.cost] ^^^ xorWords (state.data.map fun entry => entry.2.hash)

/-- A computed hash of 0 is replaced by 1. -/
def storedHash (word : UInt64) : UInt64 := if word = 0 then 1 else word

private theorem hash_fold (entries : List (StateValue F × StateValue F)) (seed : UInt64) :
    entries.foldl (fun h entry => h ^^^ entry.1.hash ^^^ entry.2.hash) seed =
      xorWords (entries.map fun entry => entry.1.hash) ^^^
        (seed ^^^ xorWords (entries.map fun entry => entry.2.hash)) := by
  induction entries generalizing seed with
  | nil => simp [xorWords]
  | cons entry rest ih =>
    rw [List.foldl_cons, ih]
    simp only [xorWords, List.map_cons, List.foldr_cons]
    ac_rfl

theorem hash_eq_storedHash (state : State F) :
    state.hash = storedHash (state.keyWord ^^^ state.payloadWord) := by
  unfold hash storedHash keyWord payloadWord
  rw [hash_fold]

theorem storedHash_eq_iff (first second : UInt64) : storedHash first = storedHash second ↔
    first = second ∨ (first = 0 ∧ second = 1) ∨ (first = 1 ∧ second = 0) := by
  unfold storedHash
  split <;> split <;> simp_all [eq_comm]

/-- The comparison of keys behaves as an unordered container requires between
the keys of two states: two keys that both find one stored key find each other. -/
def KeysAgree (state other : State F) : Prop :=
  ∀ first ∈ state.data, ∀ second ∈ state.data, ∀ stored ∈ other.data,
    StateValue.keyMatch first.1 stored.1 = true → StateValue.keyMatch second.1 stored.1 = true →
      StateValue.keyMatch second.1 first.1 = true

/-- Entries of equal states stand opposite each other in some order: the keys
find each other and the values are equal. -/
def EntryMatch (entry other : StateValue F × StateValue F) : Prop :=
  StateValue.keyMatch entry.1 other.1 = true ∧ entry.2.equals other.2 = true

theorem equals_iff (state other : State F) : state.equals other = true ↔
    state.size = other.size ∧ ∀ entry ∈ state.data, ∃ value,
      other.find? entry.1 = some value ∧ entry.2.equals value = true := by
  simp only [equals, Bool.and_eq_true, beq_iff_eq, List.all_eq_true]
  refine and_congr_right fun _ => forall₂_congr fun entry _ => ?_
  cases other.find? entry.1 <;> simp

theorem equals_matched {state other : State F} (agree : KeysAgree state other)
    (equal : state.equals other = true) :
    ∃ paired, paired.Perm other.data ∧ List.Forall₂ EntryMatch state.data paired := by
  obtain ⟨size, found⟩ := (equals_iff state other).mp equal
  apply exists_perm_forall₂ _ _ size
  · intro entry member
    obtain ⟨value, selected, same⟩ := found entry member
    obtain ⟨key, present, fits⟩ := HashedList.lookup_mem selected
    exact ⟨(key, value), present, fits, same⟩
  · apply state.distinct.imp_of_mem
    intro earlier later first second distinct stored present left right
    have found := agree earlier first later second stored present left.1 right.1
    rw [distinct] at found
    cases found

theorem keyWord_eq {state other : State F} (agree : KeysAgree state other)
    (equal : state.equals other = true) : state.keyWord = other.keyWord := by
  obtain ⟨paired, rearranged, aligned⟩ := equals_matched agree equal
  have same : ∀ entry ∈ state.data, ∀ stored ∈ paired, EntryMatch entry stored → entry.1.hash = stored.1.hash :=
    fun _ _ _ _ related => eq_of_beq (Bool.and_eq_true_iff.mp related.1).1
  have words : (state.data.map fun entry => entry.1.hash) = paired.map fun entry => entry.1.hash :=
    map_eq_of_forall₂ aligned same
  unfold keyWord
  rw [words]
  exact xorWords_perm (rearranged.map _)

/-- Cost and values of two states contribute the same word, or their hashes are 0 and 1
before the 0 is replaced. -/
def PayloadAgrees (state other : State F) : Prop :=
  state.payloadWord = other.payloadWord ∨
    (state.payloadWord = state.keyWord ∧ other.payloadWord = state.keyWord ^^^ 1) ∨
    (state.payloadWord = state.keyWord ^^^ 1 ∧ other.payloadWord = state.keyWord)

/-- Values of two states that count as equal are the same. -/
def ValuesExact (state other : State F) : Prop :=
  ∀ entry ∈ state.data, ∀ stored ∈ other.data, entry.2.equals stored.2 = true → entry.2 = stored.2

def entriesWord (state : State F) : UInt64 := state.keyWord ^^^ xorWords (state.data.map fun entry => entry.2.hash)

/-- The costs of two states hash alike, or their hashes are 0 and 1 before the 0 is replaced. -/
def CostsAgree (state other : State F) : Prop :=
  BasicMath.hash [state.cost] = BasicMath.hash [other.cost] ∨
    (BasicMath.hash [state.cost] = state.entriesWord ∧ BasicMath.hash [other.cost] = state.entriesWord ^^^ 1) ∨
    (BasicMath.hash [state.cost] = state.entriesWord ^^^ 1 ∧ BasicMath.hash [other.cost] = state.entriesWord)

private theorem xor_eq_iff (key payload word : UInt64) : key ^^^ payload = word ↔ payload = key ^^^ word := by
  constructor
  · intro same
    rw [← same, ← UInt64.xor_assoc, UInt64.xor_self, UInt64.zero_xor]
  · intro same
    rw [same, ← UInt64.xor_assoc, UInt64.xor_self, UInt64.zero_xor]

private theorem xor_right_eq_iff (first second word : UInt64) : first ^^^ second = word ↔ first = word ^^^ second := by
  rw [UInt64.xor_comm, xor_eq_iff, UInt64.xor_comm]

theorem hash_eq_iff_payloadAgrees {state other : State F} (agree : KeysAgree state other)
    (equal : state.equals other = true) : state.hash = other.hash ↔ PayloadAgrees state other := by
  rw [hash_eq_storedHash, hash_eq_storedHash, storedHash_eq_iff, PayloadAgrees, ← keyWord_eq agree equal]
  simp only [xor_eq_iff, UInt64.xor_zero]
  rw [← UInt64.xor_assoc, UInt64.xor_self, UInt64.zero_xor]

theorem valueWord_eq {state other : State F} (agree : KeysAgree state other) (exact : ValuesExact state other)
    (equal : state.equals other = true) :
    xorWords (state.data.map fun entry => entry.2.hash) = xorWords (other.data.map fun entry => entry.2.hash) := by
  obtain ⟨paired, rearranged, aligned⟩ := equals_matched agree equal
  have same : ∀ entry ∈ state.data, ∀ stored ∈ paired, EntryMatch entry stored → entry.2.hash = stored.2.hash := by
    intro entry member stored present related
    rw [exact entry member stored (rearranged.mem_iff.mp present) related.2]
  have words : (state.data.map fun entry => entry.2.hash) = paired.map fun entry => entry.2.hash :=
    map_eq_of_forall₂ aligned same
  rw [words]
  exact xorWords_perm (rearranged.map _)

theorem payloadAgrees_iff_costsAgree {state other : State F} (agree : KeysAgree state other)
    (exact : ValuesExact state other) (equal : state.equals other = true) :
    PayloadAgrees state other ↔ CostsAgree state other := by
  unfold PayloadAgrees CostsAgree entriesWord payloadWord
  rw [← valueWord_eq agree exact equal]
  simp only [xor_right_eq_iff, UInt64.xor_assoc, UInt64.xor_self, UInt64.xor_zero]
  rw [UInt64.xor_comm 1]

theorem costsAgree_of_cost {state other : State F} (cost : state.cost = other.cost) : CostsAgree state other :=
  .inl (by rw [cost])

/-- The hash contract of the unordered containers, for states whose keys compare lawfully: it holds
exactly if equal states have costs and values that contribute the same word, and where equal values
are the same exactly if equal states have costs that do. -/
theorem hash_contract_iff (state other : State F) (agree : KeysAgree state other) :
    ((state.equals other = true → state.hash = other.hash) ↔
      (state.equals other = true → PayloadAgrees state other)) ∧
    (ValuesExact state other → ((state.equals other = true → state.hash = other.hash) ↔
      (state.equals other = true → CostsAgree state other))) := by
  have payload : (state.equals other = true → state.hash = other.hash) ↔
      (state.equals other = true → PayloadAgrees state other) :=
    forall_congr' fun equal => hash_eq_iff_payloadAgrees agree equal
  refine ⟨payload, ?_⟩
  intro exact
  rw [payload]
  exact forall_congr' fun equal => payloadAgrees_iff_costsAgree agree exact equal

def pieInOven : State Float32 :=
  (State.new.put (.ofString "OwenTemperature") (.scalar (lit 300))).put (.ofString "Pie") (.scalar (lit 1))

def ovenAroundPie : State Float32 :=
  (State.new.put (.ofString "Pie") (.scalar (lit 1))).put (.ofString "OwenTemperature") (.scalar (lit 300))

def warmOven : State Float32 := State.new.put (.ofString "OwenTemperature") (.scalar (lit 300))

private theorem warmOven_equals : warmOven.equals (warmOven.setCost (lit 2)) = true := by decide +kernel

private theorem warmOven_hash_ne : warmOven.hash ≠ (warmOven.setCost (lit 2)).hash := by decide +kernel

theorem hash_contract_ovens : pieInOven.hash = ovenAroundPie.hash ∧ ¬ CostsAgree warmOven (warmOven.setCost (lit 2)) := by
  constructor
  · obtain ⟨_, costs⟩ := hash_contract_iff pieInOven ovenAroundPie (by unfold KeysAgree; decide +kernel)
    have exact : ValuesExact pieInOven ovenAroundPie := by
      unfold ValuesExact
      decide +kernel
    have cost : pieInOven.cost = ovenAroundPie.cost := by
      unfold pieInOven ovenAroundPie put
      rfl
    have equal : pieInOven.equals ovenAroundPie = true := by decide +kernel
    exact (costs exact).mpr (fun _ => costsAgree_of_cost cost) equal
  · obtain ⟨_, costs⟩ := hash_contract_iff warmOven (warmOven.setCost (lit 2)) (by unfold KeysAgree; decide +kernel)
    have exact : ValuesExact warmOven (warmOven.setCost (lit 2)) := by
      unfold ValuesExact
      decide +kernel
    intro same
    exact warmOven_hash_ne ((costs exact).mpr (fun _ => same) warmOven_equals)

/-- The same oven at two costs: equal states, different hashes. -/
theorem hash_contract_fails : ¬ ∀ state other : State Float32,
    state.equals other = true → state.hash = other.hash := by
  intro contract
  exact warmOven_hash_ne (contract warmOven (warmOven.setCost (lit 2)) warmOven_equals)

end State

end Goap
