import Goap.Foundation.TwoListQueue

namespace Goap.Foundation.TwoList

variable {α Key : Type} [LinearOrder Key] {key : α → Key} {discipline : Discipline} {level : α → Nat}
  {machine machine' : TwoList α} {item : α}

/-- How far keys have to follow levels. -/
def KeysFollow (discipline : Discipline) (key : α → Key) (level : α → Nat) (items : List α) : Prop :=
  match discipline with
  | .oldest => ∀ x ∈ items, ∀ y ∈ items, level x ≤ level y → key x ≤ key y
  | .newest => ∀ x ∈ items, ∀ y ∈ items, level x < level y → key x < key y

theorem KeysFollow.of_map {β : Type} (feature : α → β) {key' : β → Key} {level' : β → Nat} {items : List α}
    (follow : KeysFollow discipline key' level' (items.map feature))
    (same : ∀ x ∈ items, key x = key' (feature x)) :
    KeysFollow discipline key (fun x => level' (feature x)) items := by
  cases discipline with
  | oldest =>
    intro x first y second bound
    rw [same x first, same y second]
    exact follow _ (List.mem_map_of_mem first) _ (List.mem_map_of_mem second) bound
  | newest =>
    intro x first y second bound
    rw [same x first, same y second]
    exact follow _ (List.mem_map_of_mem first) _ (List.mem_map_of_mem second) bound

/-- How the levels stand between calls: sorted by arrival, or nothing pending
undercuts what is active. -/
def Ordered (discipline : Discipline) (level : α → Nat) (machine : TwoList α) : Prop :=
  match discipline with
  | .oldest => machine.contents.Pairwise fun earlier later => level earlier ≤ level later
  | .newest => machine.active = [] ∨ ∀ waiting ∈ machine.pending, ∃ ready ∈ machine.active,
      level ready ≤ level waiting

theorem Ordered.congr {level' : α → Nat} (ordered : Ordered discipline level machine)
    (same : ∀ x ∈ machine.contents, level' x = level x) : Ordered discipline level' machine := by
  cases discipline with
  | oldest =>
    apply List.Pairwise.imp_of_mem _ ordered
    intro earlier later first second bound
    rwa [same earlier first, same later second]
  | newest =>
    rcases ordered with vacant | below
    · exact .inl vacant
    · right
      intro waiting member
      obtain ⟨ready, present, bound⟩ := below waiting member
      refine ⟨ready, present, ?_⟩
      rwa [same waiting (List.mem_append_right _ member), same ready (List.mem_append_left _ present)]

/-- Pending elements of one level may join those that are not above it. -/
theorem Ordered.spawn (ordered : Ordered discipline level machine) {items : List α} {next : Nat}
    (above : ∀ x ∈ machine.contents, level x ≤ next) (own : ∀ x ∈ items, level x = next) :
    Ordered discipline level { machine with pending := machine.pending ++ items } := by
  cases discipline with
  | oldest =>
    simp only [Ordered, contents, ← List.append_assoc]
    refine List.pairwise_append.mpr ⟨ordered, ?_, ?_⟩
    · apply List.pairwise_of_forall_mem_list
      intro earlier first later second
      rw [own earlier first, own later second]
    · intro earlier first later second
      rw [own later second]
      exact above earlier first
  | newest =>
    rcases ordered with vacant | below
    · exact .inl vacant
    · by_cases vacant : machine.active = []
      · exact .inl vacant
      · right
        intro waiting member
        rcases List.mem_append.mp member with old | new
        · exact below waiting old
        · obtain ⟨ready, present⟩ := List.exists_mem_of_ne_nil _ vacant
          refine ⟨ready, present, ?_⟩
          rw [own waiting new]
          exact above ready (List.mem_append_left _ present)

private theorem settle_below (ordered : Ordered .newest level machine) :
    ∀ waiting ∈ machine.settle.pending, ∃ ready ∈ machine.settle.active, level ready ≤ level waiting := by
  by_cases vacant : machine.active = []
  · simp [settle, vacant]
  · rw [settle_eq_self vacant]
    exact ordered.resolve_left vacant

private theorem pop_oldest (ordered : Ordered .oldest level machine)
    (follow : KeysFollow .oldest key level machine.contents) {before after : List α}
    (split : machine.settle.active = before ++ item :: after)
    (least : ∀ other ∈ machine.settle.active, key item ≤ key other)
    (first : ∀ other ∈ before, key other ≠ key item) :
    before = [] ∧ (item :: (after ++ machine.settle.pending)).Pairwise fun earlier later =>
      level earlier ≤ level later := by
  have sorted : machine.settle.contents.Pairwise fun earlier later => level earlier ≤ level later := by
    rw [settle_contents]
    exact ordered
  have follow : ∀ x ∈ machine.settle.contents, ∀ y ∈ machine.settle.contents, level x ≤ level y → key x ≤ key y := by
    rw [settle_contents]
    exact follow
  rw [contents, split] at sorted follow
  cases before with
  | nil => exact ⟨rfl, sorted⟩
  | cons head rest =>
    -- The first active element is at the level of the popped one, so it shares its key.
    have bound : level head ≤ level item := (List.pairwise_cons.mp sorted).1 item (by simp)
    have below := follow head (by simp) item (by simp) bound
    have above := least head (by rw [split]; simp)
    exact absurd (le_antisymm below above) (first head (by simp))

private theorem pop_newest (ordered : Ordered .newest level machine)
    (follow : KeysFollow .newest key level machine.contents) {before after : List α}
    (split : machine.settle.active = before ++ item :: after)
    (least : ∀ other ∈ machine.settle.active, key item ≤ key other) :
    (∀ other ∈ machine.settle.contents, level item ≤ level other) ∧
      ∀ other ∈ machine.settle.active, key other = key item → level other ≤ level item := by
  have follow : ∀ x ∈ machine.settle.contents, ∀ y ∈ machine.settle.contents, level x < level y → key x < key y := by
    rw [settle_contents]
    exact follow
  have own : item ∈ machine.settle.contents := by
    rw [contents, split]
    simp
  have active : ∀ other ∈ machine.settle.active, level item ≤ level other := by
    intro other member
    by_contra deeper
    have undercut := follow other (List.mem_append_left _ member) item own (Nat.lt_of_not_le deeper)
    exact absurd (least other member) (not_le_of_gt undercut)
  constructor
  · intro other member
    rcases List.mem_append.mp member with ready | waiting
    · exact active other ready
    · obtain ⟨ready, present, bound⟩ := settle_below ordered other waiting
      exact (active ready present).trans bound
  · intro other member same
    by_contra deeper
    have undercut := follow item own other (List.mem_append_left _ member) (Nat.lt_of_not_le deeper)
    exact absurd same (ne_of_gt undercut)

/-- The popped element is of the least level and what remains is in order. -/
theorem Ordered.pop (ordered : Ordered discipline level machine)
    (follow : KeysFollow discipline key level machine.contents)
    (popped : machine.pop key discipline = (some item, machine')) :
    (∀ other ∈ machine'.contents, level item ≤ level other) ∧ Ordered discipline level machine' := by
  rcases pop_cases key discipline machine with ⟨_, none⟩ | ⟨item', before, after, split, least, first, _, some⟩
  · rw [none] at popped
    cases popped
  · rw [some] at popped
    cases (Prod.mk.inj popped).1
    have result := (Prod.mk.inj popped).2
    have left : machine'.contents = before ++ after ++ machine.settle.pending := by
      rw [← result]
      split <;> simp [contents]
    cases discipline with
    | oldest =>
      obtain ⟨rfl, sorted⟩ := pop_oldest ordered follow split least (first rfl)
      rw [List.nil_append] at left
      simp only [Ordered, left]
      exact List.pairwise_cons.mp sorted
    | newest =>
      obtain ⟨lowest, shared⟩ := pop_newest ordered follow split least
      refine ⟨?_, ?_⟩
      · intro other member
        apply lowest
        rw [left] at member
        rw [contents, split]
        simp only [List.mem_append, List.mem_cons] at member ⊢
        tauto
      · by_cases remaining : ((before ++ after).any fun other => key other = key item) = true
        · rw [if_pos remaining] at result
          obtain ⟨other, present, same⟩ := List.any_eq_true.mp remaining
          have inside : other ∈ machine.settle.active := by
            rw [split]
            simp only [List.mem_append, List.mem_cons] at present ⊢
            tauto
          right
          rw [← result]
          intro waiting member
          have bound := shared other inside (by simpa using same)
          exact ⟨other, present, bound.trans (lowest waiting (List.mem_append_right _ member))⟩
        · rw [if_neg remaining] at result
          right
          rw [← result]
          simp

end Goap.Foundation.TwoList
