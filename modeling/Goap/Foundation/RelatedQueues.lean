import Goap.Foundation.TwoListQueue
import Mathlib.Data.List.Find
import Mathlib.Data.List.Forall2

namespace Goap.Foundation

variable {α β Key : Type} [LinearOrder Key]

theorem Discipline.extract_map (discipline : Discipline) (change : α → β) (chosen : β → Bool) (items : List α) :
    discipline.extract chosen (items.map change) =
      (discipline.extract (chosen ∘ change) items).map fun taken => (change taken.1, taken.2.map change) := by
  cases discipline with
  | oldest =>
    simp only [extract, List.find?_map, List.eraseP_map, Option.map_map]
    rfl
  | newest =>
    simp only [extract, ← List.map_reverse, List.find?_map, List.eraseP_map, Option.map_map]
    rfl

theorem Discipline.extract_congr (discipline : Discipline) {chosen chosen' : α → Bool} {items : List α}
    (same : ∀ item ∈ items, chosen item = chosen' item) :
    discipline.extract chosen items = discipline.extract chosen' items := by
  have erase : ∀ items : List α, (∀ item ∈ items, chosen item = chosen' item) →
      items.eraseP chosen = items.eraseP chosen' := by
    intro items same
    induction items with
    | nil => rfl
    | cons item rest ih =>
      simp only [List.eraseP_cons, same item List.mem_cons_self, ih fun other member => same other (List.mem_cons_of_mem _ member)]
  cases discipline with
  | oldest => simp only [extract, List.find?_congr same, erase items same]
  | newest =>
    have reversed : ∀ item ∈ items.reverse, chosen item = chosen' item := fun item member =>
      same item (List.mem_reverse.mp member)
    simp only [extract, List.find?_congr reversed, erase items.reverse reversed]

theorem forall₂_comp {γ : Type} {first : α → β → Prop} {second : β → γ → Prop} {items : List α} {middle : List β}
    {others : List γ} (left : List.Forall₂ first items middle) (right : List.Forall₂ second middle others) :
    List.Forall₂ (fun item other => ∃ between, first item between ∧ second between other) items others := by
  induction left generalizing others with
  | nil =>
    cases right
    exact .nil
  | cons same _ ih =>
    cases right with
    | cons same' rest => exact .cons ⟨_, same, same'⟩ (ih rest)

namespace TwoList

theorem settle_settle (machine : TwoList α) : machine.settle.settle = machine.settle := by
  obtain ⟨active, pending⟩ := machine
  cases active with
  | nil => cases pending <;> rfl
  | cons first rest => rfl

/-- Keys that order what is held alike let the same element leave. -/
theorem pop_of_order {Key' : Type} [LinearOrder Key'] {key : α → Key} {key' : α → Key'} (discipline : Discipline)
    {machine : TwoList α}
    (order : ∀ item ∈ machine.contents, ∀ other ∈ machine.contents, (key item ≤ key other ↔ key' item ≤ key' other)) :
    machine.pop key discipline = machine.pop key' discipline := by
  rw [← settle_contents] at order
  have inside : ∀ item ∈ machine.settle.active, item ∈ machine.settle.contents := fun item member =>
    List.mem_append_left _ member
  unfold pop
  generalize machine.settle = machine at order inside
  cases found : (machine.active.map key).min? with
  | none =>
    have nothing : machine.active = [] := by simpa using List.min?_eq_none_iff.mp found
    simp [nothing]
  | some least =>
    obtain ⟨member, smallest⟩ := List.min?_eq_some_iff.mp found
    obtain ⟨sample, present, rfl⟩ := List.mem_map.mp member
    have least' : (machine.active.map key').min? = some (key' sample) := by
      refine List.min?_eq_some_iff.mpr ⟨List.mem_map_of_mem present, ?_⟩
      intro other listed
      obtain ⟨item, held, rfl⟩ := List.mem_map.mp listed
      exact (order sample (inside _ present) item (inside _ held)).mp (smallest _ (List.mem_map_of_mem held))
    have same : ∀ item ∈ machine.active, decide (key item = key sample) = decide (key' item = key' sample) := by
      intro item held
      have below := order item (inside _ held) sample (inside _ present)
      have above := order sample (inside _ present) item (inside _ held)
      simp only [le_antisymm_iff, below, above]
    simp only [found, least', Discipline.extract_congr discipline same]
    cases taken : discipline.extract (fun item => decide (key' item = key' sample)) machine.active with
    | none => rfl
    | some left =>
      obtain ⟨item, rest⟩ := left
      obtain ⟨before, after, split, rfl, _⟩ := Discipline.extract_spec taken
      have others : (before ++ after).any (fun other => decide (key other = key sample)) =
          (before ++ after).any fun other => decide (key' other = key' sample) := by
        rw [Bool.eq_iff_iff, List.any_eq_true, List.any_eq_true]
        refine exists_congr fun other => and_congr_right fun held => ?_
        have held' : other ∈ machine.active := by
          rw [split]
          exact List.mem_append.mpr ((List.mem_append.mp held).imp_right (List.mem_cons_of_mem _))
        rw [same other held']
      simp only [others]

def map (change : α → β) (machine : TwoList α) : TwoList β := ⟨machine.active.map change, machine.pending.map change⟩

theorem settle_map (change : α → β) (machine : TwoList α) : (machine.map change).settle = machine.settle.map change := by
  obtain ⟨active, pending⟩ := machine
  cases active <;> rfl

theorem pop_map (key : β → Key) (discipline : Discipline) (change : α → β) (machine : TwoList α) :
    (machine.map change).pop key discipline =
      ((machine.pop (key ∘ change) discipline).1.map change, (machine.pop (key ∘ change) discipline).2.map change) := by
  unfold pop
  rw [settle_map]
  generalize machine.settle = machine
  simp only [map, List.map_map]
  cases (machine.active.map (key ∘ change)).min? with
  | none => rfl
  | some least =>
    simp only [Discipline.extract_map, Function.comp_def]
    cases discipline.extract (fun item => decide (key (change item) = least)) machine.active with
    | none => rfl
    | some taken =>
      obtain ⟨item, rest⟩ := taken
      simp only [Option.map_some, List.any_map, Function.comp_def]
      split <;> simp

/-- Elements that correspond, in the same order. -/
structure Related (corresponds : α → β → Prop) (machine : TwoList α) (other : TwoList β) : Prop where
  active : List.Forall₂ corresponds machine.active other.active
  pending : List.Forall₂ corresponds machine.pending other.pending

variable {corresponds : α → β → Prop} {machine : TwoList α} {other : TwoList β}

theorem forall₂_pairs {items : List α} {others : List β} (related : List.Forall₂ corresponds items others) :
    ∃ pairs : List {pair : α × β // corresponds pair.1 pair.2},
      items = pairs.map (·.1.1) ∧ others = pairs.map (·.1.2) := by
  induction related with
  | nil => exact ⟨[], rfl, rfl⟩
  | @cons item other items others same _ ih =>
    obtain ⟨pairs, left, right⟩ := ih
    exact ⟨⟨(item, other), same⟩ :: pairs, by simp [left], by simp [right]⟩

theorem forall₂_of_pairs (pairs : List {pair : α × β // corresponds pair.1 pair.2}) :
    List.Forall₂ corresponds (pairs.map (·.1.1)) (pairs.map (·.1.2)) := by
  induction pairs with
  | nil => exact .nil
  | cons pair pairs ih => exact .cons pair.2 ih

/-- Elements that correspond and have the same keys leave together. -/
theorem Related.pop (related : Related corresponds machine other) {key : α → Key} {key' : β → Key}
    (keys : ∀ item item', corresponds item item' → key item = key' item') (discipline : Discipline) :
    ((machine.pop key discipline).1 = none ∧ (other.pop key' discipline).1 = none ∨
      ∃ item item', (machine.pop key discipline).1 = some item ∧ (other.pop key' discipline).1 = some item' ∧
        corresponds item item') ∧
    Related corresponds (machine.pop key discipline).2 (other.pop key' discipline).2 := by
  obtain ⟨active, active₁, active₂⟩ := forall₂_pairs related.active
  obtain ⟨pending, pending₁, pending₂⟩ := forall₂_pairs related.pending
  let pairs : TwoList {pair : α × β // corresponds pair.1 pair.2} := ⟨active, pending⟩
  have left : machine = pairs.map (·.1.1) := by
    obtain ⟨_, _⟩ := machine
    simp_all [map, pairs]
  have right : other = pairs.map (·.1.2) := by
    obtain ⟨_, _⟩ := other
    simp_all [map, pairs]
  have same : key ∘ (fun pair : {pair : α × β // corresponds pair.1 pair.2} => pair.1.1) = key' ∘ (·.1.2) := by
    funext pair
    exact keys _ _ pair.2
  rw [left, right, pop_map, pop_map, same]
  refine ⟨?_, forall₂_of_pairs _, forall₂_of_pairs _⟩
  cases (pairs.pop (key' ∘ (·.1.2)) discipline).1 with
  | none => exact .inl ⟨rfl, rfl⟩
  | some pair => exact .inr ⟨_, _, rfl, rfl, pair.2⟩

theorem Related.contents (related : Related corresponds machine other) :
    List.Forall₂ corresponds machine.contents other.contents :=
  List.rel_append related.active related.pending

theorem Related.imp {corresponds' : α → β → Prop} (related : Related corresponds machine other)
    (next : ∀ item ∈ machine.contents, ∀ item', corresponds item item' → corresponds' item item') :
    Related corresponds' machine other := by
  have lift : ∀ {items : List α} {others : List β}, List.Forall₂ corresponds items others →
      (∀ item ∈ items, item ∈ machine.contents) → List.Forall₂ corresponds' items others := by
    intro items others all inside
    induction all with
    | nil => exact .nil
    | @cons item other items others same _ ih =>
      exact .cons (next item (inside item List.mem_cons_self) other same)
        (ih fun item member => inside item (List.mem_cons_of_mem _ member))
  exact ⟨lift related.active fun item member => List.mem_append_left _ member,
    lift related.pending fun item member => List.mem_append_right _ member⟩

theorem Related.settle (related : Related corresponds machine other) :
    Related corresponds machine.settle other.settle := by
  obtain ⟨active, pending⟩ := machine
  obtain ⟨active', pending'⟩ := other
  obtain ⟨left, right⟩ := related
  cases left with
  | nil => exact ⟨right, .nil⟩
  | cons first rest => exact ⟨.cons first rest, right⟩

theorem Related.isEmpty (related : Related corresponds machine other) :
    machine.active.isEmpty = other.active.isEmpty := by
  obtain ⟨active, pending⟩ := machine
  obtain ⟨active', pending'⟩ := other
  cases related.active <;> rfl

theorem Related.append {items : List α} {others : List β} (related : Related corresponds machine other)
    (more : List.Forall₂ corresponds items others) :
    Related corresponds { machine with pending := machine.pending ++ items }
      { other with pending := other.pending ++ others } :=
  ⟨related.active, List.rel_append related.pending more⟩

end TwoList

end Goap.Foundation
