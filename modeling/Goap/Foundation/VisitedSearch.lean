import Mathlib.Data.List.Perm.Basic
import Mathlib.Data.Fintype.Card

/-! Search over a graph whose nodes are known by a key. Any waiting trail may be taken
next; its end is dropped when a node of its key has been expanded, and expanded
otherwise. Nothing depends on the order in which trails are taken. -/

namespace Goap.Foundation

variable {W L K : Type}

/-- A graph given by the labels that lead from a node to others, with the nodes that are goals. -/
structure KeyedGraph (W L K : Type) where
  labels : List L
  next : W → L → Option W
  key : W → K
  goal : W → Bool

/-- The nodes expanded, the latest first, and the trails that wait, each with its end. -/
structure VisitedSearch (W L : Type) where
  expanded : List W
  waiting : List (List L × W)

namespace KeyedGraph

variable (graph : KeyedGraph W L K)

def follow (start : W) : List L → Option W
  | [] => some start
  | label :: trail => (graph.next start label).bind fun node => follow node trail

def children (trail : List L × W) : List (List L × W) :=
  graph.labels.filterMap fun label => (graph.next trail.2 label).map fun node => (trail.1 ++ [label], node)

def Leads (initial : W) (trail : List L) (node : W) : Prop :=
  graph.follow initial trail = some node ∧ ∀ label ∈ trail, label ∈ graph.labels

def Reachable (initial node : W) : Prop := ∃ trail, graph.Leads initial trail node

def start (initial : W) : VisitedSearch W L := ⟨[initial], graph.children ([], initial)⟩

/-- Taking one trail. -/
inductive Step (search : VisitedSearch W L) : VisitedSearch W L → Prop where
  | rejected (taken : search.waiting.Perm (trail :: rest))
      (seen : ∃ node ∈ search.expanded, graph.key node = graph.key trail.2) : Step search ⟨search.expanded, rest⟩
  | expanded (taken : search.waiting.Perm (trail :: rest))
      (fresh : ∀ node ∈ search.expanded, graph.key node ≠ graph.key trail.2) (noGoal : graph.goal trail.2 = false)
      (grown : waiting.Perm (rest ++ graph.children trail)) : Step search ⟨trail.2 :: search.expanded, waiting⟩

/-- The searches that steps lead to. -/
inductive Run (initial : W) : VisitedSearch W L → Prop where
  | start : Run initial (graph.start initial)
  | step (before : Run initial search) (taken : graph.Step search search') : Run initial search'

variable {graph} {initial node : W} {search search' : VisitedSearch W L}

theorem follow_append (start : W) (first second : List L) :
    graph.follow start (first ++ second) = (graph.follow start first).bind fun node => graph.follow node second := by
  induction first generalizing start with
  | nil => rfl
  | cons label first ih =>
    rw [List.cons_append, follow, follow, Option.bind_assoc]
    congr 1
    funext node
    exact ih node

theorem Leads.snoc {trail : List L} {label : L} {node' : W} (leads : graph.Leads initial trail node)
    (member : label ∈ graph.labels) (moved : graph.next node label = some node') :
    graph.Leads initial (trail ++ [label]) node' := by
  obtain ⟨followed, known⟩ := leads
  constructor
  · simp [follow_append, followed, follow, moved]
  · intro other present
    rcases List.mem_append.mp present with old | own
    · exact known other old
    · rwa [List.mem_singleton.mp own]

theorem Reachable.step {label : L} {node' : W} (reachable : graph.Reachable initial node)
    (member : label ∈ graph.labels) (moved : graph.next node label = some node') : graph.Reachable initial node' := by
  obtain ⟨trail, leads⟩ := reachable
  exact ⟨_, leads.snoc member moved⟩

theorem Reachable.self : graph.Reachable initial initial := ⟨[], rfl, by simp⟩

theorem Reachable.invariant (holds : W → Prop) (reachable : graph.Reachable initial node) (began : holds initial)
    (kept : ∀ node, holds node → ∀ label ∈ graph.labels, ∀ node', graph.next node label = some node' → holds node') :
    holds node := by
  obtain ⟨trail, followed, known⟩ := reachable
  induction trail generalizing initial with
  | nil => exact Option.some.inj followed ▸ began
  | cons label trail ih =>
    obtain ⟨middle, moved, rest⟩ := Option.bind_eq_some_iff.mp followed
    exact ih (kept _ began label (known label (by simp)) middle moved) rest fun other member =>
      known other (List.mem_cons_of_mem _ member)

theorem mem_children {trail child : List L × W} : child ∈ graph.children trail ↔
    ∃ label ∈ graph.labels, ∃ node, graph.next trail.2 label = some node ∧ (trail.1 ++ [label], node) = child := by
  simp only [children, List.mem_filterMap, Option.map_eq_some_iff]

theorem length_children_le (graph : KeyedGraph W L K) (trail : List L × W) : (graph.children trail).length ≤ graph.labels.length :=
  List.length_filterMap_le _ _

/-- What every search of a run keeps: trails lead to the nodes they are kept with, no two
expanded nodes share a key, and whatever can be reached in one step from an expanded node
is known by its key or waits. -/
structure Sound (graph : KeyedGraph W L K) (initial : W) (search : VisitedSearch W L) : Prop where
  leads : ∀ trail ∈ search.waiting, graph.Leads initial trail.1 trail.2
  reachable : ∀ node ∈ search.expanded, graph.Reachable initial node
  distinct : (search.expanded.map graph.key).Nodup
  began : initial ∈ search.expanded
  noGoal : ∀ node ∈ search.expanded, node = initial ∨ graph.goal node = false
  closed : ∀ node ∈ search.expanded, ∀ label ∈ graph.labels, ∀ node', graph.next node label = some node' →
    (∃ known ∈ search.expanded, graph.key known = graph.key node') ∨ ∃ trail ∈ search.waiting, trail.2 = node'

theorem leads_children (trail : List L × W) {child : List L × W} (leads : graph.Leads initial trail.1 trail.2)
    (member : child ∈ graph.children trail) : graph.Leads initial child.1 child.2 := by
  obtain ⟨label, known, node, moved, rfl⟩ := mem_children.mp member
  exact leads.snoc known moved

theorem exists_child (trail : List L × W) {label : L} (member : label ∈ graph.labels)
    (moved : graph.next trail.2 label = some node) : ∃ child ∈ graph.children trail, child.2 = node :=
  ⟨_, mem_children.mpr ⟨label, member, node, moved, rfl⟩, rfl⟩

theorem Sound.start (graph : KeyedGraph W L K) (initial : W) : Sound graph initial (graph.start initial) where
  leads trail member := leads_children ([], initial) ⟨rfl, by simp⟩ member
  reachable node member := by
    rw [List.mem_singleton.mp member]
    exact .self
  distinct := List.nodup_singleton _
  began := List.mem_singleton_self _
  noGoal node member := .inl (List.mem_singleton.mp member)
  closed node member label known node' moved := by
    rw [List.mem_singleton.mp member] at moved
    exact .inr (exists_child ([], initial) known moved)

theorem Sound.step (sound : Sound graph initial search) (step : graph.Step search search') :
    Sound graph initial search' := by
  cases step with
  | @rejected trail rest taken seen =>
    refine ⟨?_, sound.reachable, sound.distinct, sound.began, sound.noGoal, ?_⟩
    · intro other member
      exact sound.leads other (taken.mem_iff.mpr (List.mem_cons_of_mem _ member))
    · intro node member label known node' moved
      rcases sound.closed node member label known node' moved with covered | ⟨other, waits, same⟩
      · exact .inl covered
      · rcases List.mem_cons.mp (taken.mem_iff.mp waits) with own | left
        · rw [← same, own]
          exact .inl seen
        · exact .inr ⟨other, left, same⟩
  | @expanded trail rest waiting taken fresh noGoal grown =>
    have leads := sound.leads trail (taken.mem_iff.mpr List.mem_cons_self)
    refine ⟨?_, ?_, ?_, List.mem_cons_of_mem _ sound.began, ?_, ?_⟩
    · intro other member
      rcases List.mem_append.mp (grown.mem_iff.mp member) with old | child
      · exact sound.leads other (taken.mem_iff.mpr (List.mem_cons_of_mem _ old))
      · exact leads_children trail leads child
    · exact List.forall_mem_cons.mpr ⟨⟨_, leads⟩, sound.reachable⟩
    · rw [List.map_cons, List.nodup_cons, List.mem_map]
      refine ⟨?_, sound.distinct⟩
      intro twice
      obtain ⟨node, member, same⟩ := twice
      exact fresh node member same
    · exact List.forall_mem_cons.mpr ⟨.inr noGoal, sound.noGoal⟩
    · intro node member label known node' moved
      rcases List.mem_cons.mp member with own | old
      · subst own
        obtain ⟨child, waits, same⟩ := exists_child trail known moved
        exact .inr ⟨child, grown.mem_iff.mpr (List.mem_append_right _ waits), same⟩
      · rcases sound.closed node old label known node' moved with ⟨stored, present, same⟩ | ⟨other, waits, same⟩
        · exact .inl ⟨stored, List.mem_cons_of_mem _ present, same⟩
        · rcases List.mem_cons.mp (taken.mem_iff.mp waits) with taken' | left
          · exact .inl ⟨trail.2, List.mem_cons_self, by rw [← same, taken']⟩
          · exact .inr ⟨other, grown.mem_iff.mpr (List.mem_append_left _ left), same⟩

theorem Run.sound (run : graph.Run initial search) : Sound graph initial search := by
  induction run with
  | start => exact .start graph initial
  | step _ taken ih => exact ih.step taken

/-- Nodes of one key cannot be told apart: they are goals together, and the same labels
lead from them to nodes of one key. -/
structure KeyRespects (graph : KeyedGraph W L K) (initial : W) : Prop where
  goal : ∀ node other, graph.Reachable initial node → graph.Reachable initial other →
    graph.key node = graph.key other → graph.goal node = graph.goal other
  next : ∀ node other, graph.Reachable initial node → graph.Reachable initial other →
    graph.key node = graph.key other → ∀ label ∈ graph.labels, ∀ node', graph.next node label = some node' →
      ∃ other', graph.next other label = some other' ∧ graph.key node' = graph.key other'

theorem KeyRespects.of_injective (injective : ∀ node other, graph.Reachable initial node →
    graph.Reachable initial other → graph.key node = graph.key other → node = other) :
    KeyRespects graph initial where
  goal node other left right same := by rw [injective node other left right same]
  next node other left right same label _ node' moved := by
    rw [← injective node other left right same]
    exact ⟨node', moved, rfl⟩

/-- Nodes that are alike have one key and are goals together, and the same labels lead from them
to nodes that are alike. -/
structure Bisimilar (graph : KeyedGraph W L K) (alike : W → W → Prop) : Prop where
  key : ∀ node other, alike node other → graph.key node = graph.key other
  goal : ∀ node other, alike node other → graph.goal node = graph.goal other
  next : ∀ node other, alike node other → ∀ label ∈ graph.labels, ∀ node', graph.next node label = some node' →
    ∃ other', graph.next other label = some other' ∧ alike node' other'

/-- When nothing waits any more, a trail ends alike to what has been expanded, or it passes a node
that was taken for another one of its key. -/
theorem Sound.alike_or_mistaken {alike : W → W → Prop} (sound : Sound graph initial search) (bisimilar : Bisimilar graph alike)
    (nothing : search.waiting = []) {start : W} {trail : List L} (leads : graph.Leads start trail node)
    (known : ∃ other ∈ search.expanded, alike start other) :
    (∃ other ∈ search.expanded, alike node other) ∨
      ∃ k ≤ trail.length, ∃ passed, graph.follow start (trail.take k) = some passed ∧
        ∃ other ∈ search.expanded, graph.key other = graph.key passed ∧ ¬ alike passed other := by
  obtain ⟨followed, labels⟩ := leads
  induction trail generalizing start with
  | nil =>
    obtain rfl := Option.some.inj followed
    exact .inl known
  | cons label trail ih =>
    obtain ⟨first, others⟩ := List.forall_mem_cons.mp labels
    obtain ⟨middle, moved, rest⟩ := Option.bind_eq_some_iff.mp followed
    have further : ∀ k, graph.follow start ((label :: trail).take (k + 1)) = graph.follow middle (trail.take k) := by
      intro k
      rw [List.take_succ_cons, follow, moved, Option.bind_some]
    obtain ⟨other, member, same⟩ := known
    obtain ⟨other', moved', same'⟩ := bisimilar.next start other same label first middle moved
    rcases sound.closed other member label first other' moved' with ⟨stored, stays, own⟩ | ⟨waiting, waits, _⟩
    · have key : graph.key stored = graph.key middle := own.trans (bisimilar.key middle other' same').symm
      by_cases close : alike middle stored
      · rcases ih ⟨stored, stays, close⟩ rest others with ended | ⟨k, inside, passed, reached, mistaken⟩
        · exact .inl ended
        · exact .inr ⟨k + 1, Nat.succ_le_succ inside, passed, (further k).trans reached, mistaken⟩
      · exact .inr ⟨1, Nat.succ_le_succ (Nat.zero_le _), middle, further 0, stored, stays, key, close⟩
    · rw [nothing] at waits
      cases waits

theorem Sound.mistaken {alike : W → W → Prop} (sound : Sound graph initial search) (bisimilar : Bisimilar graph alike)
    (nothing : search.waiting = []) (self : alike initial initial) (apart : graph.goal initial = false) {trail : List L}
    (leads : graph.Leads initial trail node) (goal : graph.goal node = true) :
    ∃ k ≤ trail.length, ∃ passed, graph.follow initial (trail.take k) = some passed ∧
      ∃ other ∈ search.expanded, graph.key other = graph.key passed ∧ ¬ alike passed other := by
  rcases sound.alike_or_mistaken bisimilar nothing leads ⟨initial, sound.began, self⟩ with ⟨other, member, same⟩ | mistaken
  · rw [bisimilar.goal node other same] at goal
    rcases sound.noGoal other member with rfl | noGoal
    · rw [apart] at goal
      cases goal
    · rw [noGoal] at goal
      cases goal
  · exact mistaken

theorem KeyRespects.bisimilar (respects : KeyRespects graph initial) : Bisimilar graph fun node other =>
    graph.Reachable initial node ∧ graph.Reachable initial other ∧ graph.key node = graph.key other where
  key _ _ same := same.2.2
  goal node other same := respects.goal node other same.1 same.2.1 same.2.2
  next node other same label member node' moved := by
    obtain ⟨left, right, key⟩ := same
    obtain ⟨other', moved', key'⟩ := respects.next node other left right key label member node' moved
    exact ⟨other', moved', left.step member moved, right.step member moved', key'⟩

theorem Sound.exhausted (sound : Sound graph initial search) (respects : KeyRespects graph initial)
    (nothing : search.waiting = []) (reachable : graph.Reachable initial node) :
    ∃ known ∈ search.expanded, graph.key known = graph.key node := by
  obtain ⟨trail, leads⟩ := reachable
  have began : ∃ known ∈ search.expanded, graph.Reachable initial initial ∧ graph.Reachable initial known ∧
    graph.key initial = graph.key known := ⟨initial, sound.began, .self, .self, rfl⟩
  rcases sound.alike_or_mistaken respects.bisimilar nothing leads began with
    ⟨known, member, _, _, same⟩ | ⟨k, _, passed, reached, known, member, same, mistaken⟩
  · exact ⟨known, member, same.symm⟩
  · have before : graph.Reachable initial passed := ⟨trail.take k, reached, fun label taken => leads.2 label (List.mem_of_mem_take taken)⟩
    exact absurd ⟨before, sound.reachable known member, same.symm⟩ mistaken

theorem Sound.key_of_goal (sound : Sound graph initial search) (respects : KeyRespects graph initial)
    (nothing : search.waiting = []) (reachable : graph.Reachable initial node) (goal : graph.goal node = true) :
    graph.key node = graph.key initial := by
  obtain ⟨known, present, same⟩ := sound.exhausted respects nothing reachable
  rcases sound.noGoal known present with own | other
  · rw [← same, own]
  · rw [← respects.goal known node (sound.reachable known present) reachable same, other] at goal
    cases goal

/-- How many more trails can be taken, if no more than `bound` nodes are ever expanded. -/
def potential (graph : KeyedGraph W L K) (bound : Nat) (search : VisitedSearch W L) : Nat :=
  (bound - search.expanded.length) * graph.labels.length + search.waiting.length

/-- Every step uses something up. -/
theorem Step.potential_lt (step : graph.Step search search') {bound : Nat}
    (room : search'.expanded.length ≤ bound) : graph.potential bound search' < graph.potential bound search := by
  cases step with
  | @rejected trail rest taken seen =>
    have popped := taken.length_eq
    rw [List.length_cons] at popped
    unfold potential
    dsimp only
    omega
  | @expanded trail rest waiting taken fresh noGoal grown =>
    have popped := taken.length_eq
    have spread := length_children_le graph trail
    have total := grown.length_eq
    rw [List.length_cons] at popped room
    rw [List.length_append] at total
    obtain ⟨spare, split⟩ := Nat.exists_eq_add_of_le room
    have before : bound - search.expanded.length = spare + 1 := by omega
    have after : bound - (search.expanded.length + 1) = spare := by omega
    unfold potential
    dsimp only
    rw [List.length_cons, before, after, Nat.succ_mul]
    omega

theorem Sound.expanded_le [Fintype K] (sound : Sound graph initial search) :
    search.expanded.length ≤ Fintype.card K := by
  rw [← List.length_map (f := graph.key)]
  exact sound.distinct.length_le_card

end KeyedGraph

end Goap.Foundation
