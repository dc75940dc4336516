import Goap.Foundation.Coverage
import Goap.Foundation.LevelOrder
import Goap.Foundation.VisitedSearch

/-! Search over a keyed graph whose trails wait in a two-list queue, under keys that are given
by their lengths. As far as keys follow lengths, no goal is missed that a shorter trail leads to. -/

namespace Goap.Foundation

variable {W L K Key : Type} [LinearOrder Key]

/-- The nodes expanded, each with the length of its trail, and the trails that wait. -/
structure LevelSearch (W L : Type) where
  expanded : List (W × ℕ)
  frontier : TwoList (List L × W)

namespace LevelSearch

def pop (discipline : Discipline) (keyAt : ℕ → Key) (search : LevelSearch W L) : Option (List L × W) × TwoList (List L × W) :=
  search.frontier.pop (fun trail => keyAt trail.1.length) discipline

end LevelSearch

namespace KeyedGraph

variable (graph : KeyedGraph W L K) (discipline : Discipline) (keyAt : ℕ → Key)

def levelStart (initial : W) : LevelSearch W L :=
  ⟨[(initial, 0)], TwoList.settle ⟨[], graph.children ([], initial)⟩⟩

/-- Taking the trail that is due. -/
inductive LevelStep (search : LevelSearch W L) : LevelSearch W L → Prop where
  | rejected {trail : List L × W} {frontier : TwoList (List L × W)}
      (popped : search.pop discipline keyAt = (some trail, frontier))
      (seen : ∃ v ∈ search.expanded, graph.key v.1 = graph.key trail.2) : LevelStep search ⟨search.expanded, frontier⟩
  | expanded {trail : List L × W} {frontier : TwoList (List L × W)}
      (popped : search.pop discipline keyAt = (some trail, frontier)) (noGoal : graph.goal trail.2 = false) :
      LevelStep search ⟨(trail.2, trail.1.length) :: search.expanded,
        { frontier with pending := frontier.pending ++ graph.children trail }⟩

inductive LevelRun (initial : W) : LevelSearch W L → Prop where
  | start : LevelRun initial (graph.levelStart initial)
  | step {search search' : LevelSearch W L} (before : LevelRun initial search)
      (taken : graph.LevelStep discipline keyAt search search') : LevelRun initial search'

/-- Trails of two neighbouring lengths wait, in the order that the discipline needs, and no
node has been expanded at the end of a longer one. -/
structure Levelled (initial : W) (search : LevelSearch W L) (front : ℕ) : Prop where
  leads : ∀ trail ∈ search.frontier.contents, graph.Leads initial trail.1 trail.2
  reachable : ∀ v ∈ search.expanded, graph.Reachable initial v.1
  began : (initial, 0) ∈ search.expanded
  noGoal : ∀ v ∈ search.expanded, graph.goal v.1 = false
  closed : ∀ v ∈ search.expanded, ∀ label ∈ graph.labels, ∀ node, graph.next v.1 label = some node →
    (∃ w ∈ search.expanded, graph.key node = graph.key w.1 ∧ w.2 ≤ v.2 + 1) ∨
      ∃ trail ∈ search.frontier.contents, trail.2 = node ∧ trail.1.length ≤ v.2 + 1
  ordered : search.frontier.Ordered discipline fun trail => trail.1.length
  band : ∀ trail ∈ search.frontier.contents, front ≤ trail.1.length ∧ trail.1.length ≤ front + 1
  above : ∀ v ∈ search.expanded, v.2 ≤ front

variable {graph discipline keyAt} {initial node : W} {search search' : LevelSearch W L} {front : ℕ}

theorem length_of_mem_children {trail child : List L × W} (member : child ∈ graph.children trail) :
    child.1.length = trail.1.length + 1 := by
  obtain ⟨label, _, node, _, rfl⟩ := mem_children.mp member
  simp

theorem Levelled.start (noGoal : graph.goal initial = false) :
    graph.Levelled discipline initial (graph.levelStart initial) 0 := by
  have contents : (graph.levelStart initial).frontier.contents = graph.children ([], initial) :=
    TwoList.settle_contents _
  have length : ∀ trail ∈ (graph.levelStart initial).frontier.contents, trail.1.length = 1 := by
    intro trail member
    exact length_of_mem_children (contents ▸ member)
  refine ⟨?_, ?_, List.mem_singleton_self _, ?_, ?_, ?_, ?_, ?_⟩
  · intro trail member
    exact leads_children ([], initial) ⟨rfl, by simp⟩ (contents ▸ member)
  · intro v member
    rw [List.mem_singleton.mp member]
    exact .self
  · intro v member
    rwa [List.mem_singleton.mp member]
  · intro v member label known node moved
    rw [List.mem_singleton.mp member] at moved ⊢
    obtain ⟨child, waits, same⟩ := exists_child ([], initial) known moved
    exact .inr ⟨child, contents ▸ waits, same, (length child (contents ▸ waits)).le⟩
  · cases discipline with
    | oldest =>
      apply List.pairwise_of_forall_mem_list
      intro earlier first later second
      exact ((length earlier first).trans (length later second).symm).le
    | newest => exact .inr (by simp [levelStart, TwoList.settle])
  · intro trail member
    simp [length trail member]
  · intro v member
    rw [List.mem_singleton.mp member]

/-- Either the node has been expanded by its key, or some trail that waits is no longer than
the one that leads to it. -/
theorem Levelled.cut (levelled : graph.Levelled discipline initial search front) (respects : graph.KeyRespects initial)
    {trail : List L} (leads : graph.Leads initial trail node) :
    (∃ v ∈ search.expanded, graph.key node = graph.key v.1 ∧ v.2 ≤ trail.length) ∨
      ∃ waiting ∈ search.frontier.contents, waiting.1.length ≤ trail.length := by
  let alike (x y : W) : Prop := graph.Reachable initial x ∧ graph.Reachable initial y ∧ graph.key x = graph.key y
  let step (x y : W) : Prop := ∃ label ∈ graph.labels, graph.next x label = some y
  have trans : ∀ x y z, alike x y → alike y z → alike x z := fun _ _ _ one two => ⟨one.1, two.2.1, one.2.2.trans two.2.2⟩
  have follows : ∀ x y x', alike x y → step x x' → ∃ y', step y y' ∧ alike x' y' := by
    intro x y x' close moves
    obtain ⟨left, right, same⟩ := close
    obtain ⟨label, member, moved⟩ := moves
    obtain ⟨y', moved', same'⟩ := respects.next x y left right same label member x' moved
    exact ⟨y', ⟨label, member, moved'⟩, left.step member moved, right.step member moved', same'⟩
  have closed : ∀ v ∈ search.expanded, ∀ target, step v.1 target →
      (∃ w ∈ search.expanded, alike target w.1 ∧ w.2 ≤ v.2 + 1) ∨
        ∃ depth, (∃ waiting ∈ search.frontier.contents, waiting.1.length = depth) ∧ depth ≤ v.2 + 1 := by
    intro v present target moves
    obtain ⟨label, member, moved⟩ := moves
    have reached := (levelled.reachable v present).step member moved
    rcases levelled.closed v present label member target moved with ⟨w, present', same, less⟩ | ⟨waiting, held, _, less⟩
    · exact .inl ⟨w, present', ⟨reached, levelled.reachable w present', same⟩, less⟩
    · exact .inr ⟨_, ⟨waiting, held, rfl⟩, less⟩
  have steps : ∀ trail node, graph.Leads initial trail node → StepsIn step trail.length initial node := by
    intro trail
    induction trail using List.reverseRecOn with
    | nil =>
      intro node leads
      exact Option.some.inj leads.1 ▸ .refl
    | append_singleton trail label ih =>
      intro node leads
      obtain ⟨followed, known⟩ := leads
      rw [follow_append] at followed
      obtain ⟨middle, before, last⟩ := Option.bind_eq_some_iff.mp followed
      obtain ⟨target, moved, same⟩ := Option.bind_eq_some_iff.mp last
      cases same
      rw [List.length_append, List.length_singleton]
      exact .tail (ih middle ⟨before, fun other member => known other (by simp [member])⟩) ⟨label, known label (by simp), moved⟩
  have began : ∃ v ∈ search.expanded, alike initial v.1 ∧ v.2 ≤ 0 := ⟨_, levelled.began, ⟨.self, .self, rfl⟩, le_rfl⟩
  rcases visited_or_open .id trans follows closed began (steps trail node leads) with
    ⟨v, present, same, less⟩ | ⟨_, ⟨waiting, held, rfl⟩, less⟩
  · exact .inl ⟨v, present, same.2.2, less⟩
  · exact .inr ⟨waiting, held, less⟩

theorem Levelled.waits (levelled : graph.Levelled discipline initial search front) (respects : graph.KeyRespects initial)
    {trail : List L} (leads : graph.Leads initial trail node) (goal : graph.goal node = true) :
    ∃ waiting ∈ search.frontier.contents, waiting.1.length ≤ trail.length := by
  rcases levelled.cut respects leads with ⟨v, present, same, _⟩ | waits
  · have other := respects.goal node v.1 ⟨trail, leads⟩ (levelled.reachable v present) same
    rw [goal, levelled.noGoal v present] at other
    cases other
  · exact waits

/-- The trail that is due is one of the shortest; the others are no more than one longer. -/
theorem Levelled.pop {trail : List L × W} {frontier : TwoList (List L × W)}
    (levelled : graph.Levelled discipline initial search front)
    (follow : TwoList.KeysFollow discipline (fun trail => keyAt trail.1.length) (fun trail => trail.1.length)
      search.frontier.contents)
    (popped : search.pop discipline keyAt = (some trail, frontier)) :
    search.frontier.contents.Perm (trail :: frontier.contents) ∧
      (∀ other ∈ search.frontier.contents, trail.1.length ≤ other.1.length) ∧
      frontier.Ordered discipline fun trail => trail.1.length := by
  obtain ⟨least, ordered⟩ := levelled.ordered.pop follow popped
  rcases TwoList.pop_contents (fun trail => keyAt trail.1.length) discipline search.frontier with ⟨_, nothing, _⟩ | ⟨item, own, moved⟩
  · cases nothing.symm.trans (congrArg Prod.fst popped)
  · cases own.symm.trans (congrArg Prod.fst popped)
    have left := congrArg Prod.snd popped
    rw [LevelSearch.pop] at left
    rw [left] at moved
    refine ⟨moved, ?_, ordered⟩
    intro other member
    rcases List.mem_cons.mp (moved.mem_iff.mp member) with same | held
    · rw [same]
    · exact least other held

theorem Levelled.step (levelled : graph.Levelled discipline initial search front)
    (follow : TwoList.KeysFollow discipline (fun trail => keyAt trail.1.length) (fun trail => trail.1.length)
      search.frontier.contents)
    (taken : graph.LevelStep discipline keyAt search search') : ∃ front', graph.Levelled discipline initial search' front' := by
  cases taken with
  | @rejected trail frontier popped seen =>
    obtain ⟨moved, least, ordered⟩ := levelled.pop follow popped
    have own := moved.mem_iff.mpr List.mem_cons_self
    have held : ∀ other ∈ frontier.contents, other ∈ search.frontier.contents := fun other member =>
      moved.mem_iff.mpr (List.mem_cons_of_mem _ member)
    have deeper := levelled.band trail own
    refine ⟨front, fun other member => levelled.leads other (held other member), levelled.reachable, levelled.began,
      levelled.noGoal, ?_, ordered, fun other member => levelled.band other (held other member), levelled.above⟩
    intro v present label member node next
    rcases levelled.closed v present label member node next with known | ⟨waiting, waits, same, less⟩
    · exact .inl known
    · rcases List.mem_cons.mp (moved.mem_iff.mp waits) with rfl | left
      · obtain ⟨w, present', alike⟩ := seen
        have shallow := levelled.above w present'
        exact .inl ⟨w, present', by rw [← same, alike], by omega⟩
      · exact .inr ⟨waiting, left, same, less⟩
  | @expanded trail frontier popped noGoal =>
    obtain ⟨moved, least, ordered⟩ := levelled.pop follow popped
    have own := moved.mem_iff.mpr List.mem_cons_self
    have held : ∀ other ∈ frontier.contents, other ∈ search.frontier.contents := fun other member =>
      moved.mem_iff.mpr (List.mem_cons_of_mem _ member)
    have deeper := levelled.band trail own
    have grown {other : List L × W} : other ∈ ({ frontier with pending := frontier.pending ++ graph.children trail } :
        TwoList (List L × W)).contents ↔ other ∈ frontier.contents ∨ other ∈ graph.children trail := by
      rw [TwoList.contents, ← List.append_assoc]
      exact List.mem_append
    have length : ∀ child ∈ graph.children trail, child.1.length = trail.1.length + 1 := fun child member =>
      length_of_mem_children member
    refine ⟨trail.1.length, ?_, ?_, List.mem_cons_of_mem _ levelled.began, ?_, ?_, ?_, ?_, ?_⟩
    · intro other member
      rcases grown.mp member with old | child
      · exact levelled.leads other (held other old)
      · exact leads_children trail (levelled.leads trail own) child
    · exact List.forall_mem_cons.mpr ⟨⟨_, levelled.leads trail own⟩, levelled.reachable⟩
    · exact List.forall_mem_cons.mpr ⟨noGoal, levelled.noGoal⟩
    · intro v present label member node next
      rcases List.mem_cons.mp present with rfl | old
      · obtain ⟨child, waits, same⟩ := exists_child trail member next
        exact .inr ⟨child, grown.mpr (.inr waits), same, (length child waits).le⟩
      · rcases levelled.closed v old label member node next with ⟨w, present', same, less⟩ | ⟨waiting, waits, same, less⟩
        · exact .inl ⟨w, List.mem_cons_of_mem _ present', same, less⟩
        · rcases List.mem_cons.mp (moved.mem_iff.mp waits) with rfl | left
          · exact .inl ⟨_, List.mem_cons_self, congrArg graph.key same.symm, less⟩
          · exact .inr ⟨waiting, grown.mpr (.inl left), same, less⟩
    · apply ordered.spawn _ length
      intro other member
      have room := levelled.band other (held other member)
      omega
    · intro other member
      rcases grown.mp member with old | child
      · have room := levelled.band other (held other old)
        exact ⟨least other (held other old), by omega⟩
      · rw [length other child]
        exact ⟨Nat.le_succ _, le_rfl⟩
    · refine List.forall_mem_cons.mpr ⟨le_rfl, ?_⟩
      intro v present
      exact (levelled.above v present).trans deeper.1

/-- What waits is of a length up to which keys have to follow lengths, if some trail to a goal is
so short. -/
theorem Levelled.keysFollow (levelled : graph.Levelled discipline initial search front) (respects : graph.KeyRespects initial)
    {trail : List L} (leads : graph.Leads initial trail node) (goal : graph.goal node = true)
    (follow : ∀ lengths, (∀ length ∈ lengths, length ≤ trail.length + 1) → TwoList.KeysFollow discipline keyAt id lengths) :
    TwoList.KeysFollow discipline (fun trail => keyAt trail.1.length) (fun trail => trail.1.length)
      search.frontier.contents := by
  obtain ⟨waiting, held, short⟩ := levelled.waits respects leads goal
  have near := levelled.band waiting held
  refine TwoList.KeysFollow.of_map (fun trail : List L × W => trail.1.length) (follow _ ?_) fun _ _ => rfl
  intro length listed
  obtain ⟨other, member, rfl⟩ := List.mem_map.mp listed
  have far := levelled.band other member
  omega

/-- As long as keys follow lengths, up to one more than that of some trail to a goal, the trail
that is due is no longer than that one. -/
theorem LevelRun.due_le (run : graph.LevelRun discipline keyAt initial search) (respects : graph.KeyRespects initial)
    (noGoal : graph.goal initial = false) {trail : List L} (leads : graph.Leads initial trail node)
    (goal : graph.goal node = true)
    (follow : ∀ lengths, (∀ length ∈ lengths, length ≤ trail.length + 1) → TwoList.KeysFollow discipline keyAt id lengths)
    {due : List L × W} {frontier : TwoList (List L × W)} (popped : search.pop discipline keyAt = (some due, frontier)) :
    due.1.length ≤ trail.length := by
  have levelled : ∃ front, graph.Levelled discipline initial search front := by
    clear popped
    induction run with
    | start => exact ⟨0, .start noGoal⟩
    | step _ taken ih =>
      obtain ⟨front, levelled⟩ := ih
      exact levelled.step (levelled.keysFollow respects leads goal follow) taken
  obtain ⟨front, levelled⟩ := levelled
  obtain ⟨waiting, held, short⟩ := levelled.waits respects leads goal
  obtain ⟨_, least, _⟩ := levelled.pop (levelled.keysFollow respects leads goal follow) popped
  exact (least waiting held).trans short

end KeyedGraph

end Goap.Foundation
