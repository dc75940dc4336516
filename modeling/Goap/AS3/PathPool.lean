import Goap.AS3.PlainSearch

/-! Which paths are given back to the pool: never one that waits, and never a parent on the
way from one that waits to its root. So every iteration of `makePlan` does what it does
without objects. -/

namespace Goap.AS3

open NumberOps Foundation

variable {N Other : Type} [ToString Other] [NumberOps N] {planner : Planner N Other}
  {meter : PlanningStateMeter N Other} {initialState : IWriteState N Other} {heap heap' : Heap N Other}
  {queued queued' : List Nat} {id : Nat} {trail : Trail N Other}

/-- A path in use: neither it nor a parent of it is in the pool, and of these only the path
itself may wait. -/
structure StandsFor (planner : Planner N Other) (initialState : IWriteState N Other) (heap : Heap N Other)
    (queued : List Nat) (id : Nat) (trail : Trail N Other) : Prop where
  line : ∃ ids, Line (· = initialState) heap.paths (some id) ids trail.actions ∧
    ∀ other ∈ ids, other ∉ heap.pathPool._objects ∧ (other ∈ queued → other = id)
  cost : Path.cost heap id = trail.cost
  view : outcome initialState.view trail.actions = .ok trail.view
  known : ∀ action ∈ trail.actions, action ∈ planner._planningActions

/-- The path from which children are made; `none` for the initial state. Nothing on its way
to the root waits. -/
structure Parent (planner : Planner N Other) (initialState : IWriteState N Other) (heap : Heap N Other)
    (queued : List Nat) (path : Option Nat) (trail : Trail N Other) : Prop where
  line : ∃ ids, Line (· = initialState) heap.paths path ids trail.actions ∧
    ∀ other ∈ ids, other ∉ heap.pathPool._objects ∧ other ∉ queued
  view : outcome initialState.view trail.actions = .ok trail.view
  known : ∀ action ∈ trail.actions, action ∈ planner._planningActions

/-- No path is in the pool twice. -/
structure PoolSound (heap : Heap N Other) : Prop where
  distinct : heap.pathPool._objects.Nodup
  made : ∀ id ∈ heap.pathPool._objects, id < heap.paths.length

/-- The queue of paths and the two-list machine of the trails they stand for. The paths of
`held` are in use but do not wait. -/
structure Frontier (planner : Planner N Other) (initialState : IWriteState N Other) (held : List Nat)
    (heap : Heap N Other) (queue : PrioritizedQueue Nat) (machine : TwoList Nat) (frontier : TwoList (Trail N Other)) :
    Prop where
  queue : PrioritizedQueue.Refines (Path.cost heap) queue machine
  pool : PoolSound heap
  distinct : (held ++ machine.contents).Nodup
  related : TwoList.Related (StandsFor planner initialState heap (held ++ machine.contents)) machine frontier

omit [NumberOps N] in
theorem separates_eq (initialState : IWriteState N Other) : Separates (· = initialState) := by
  intro state other left right _
  rw [left, right]

theorem Path.cost_eq {paths paths' : List (Path N Other)} {id : Nat} (same : paths'[id]? = paths[id]?)
    (pathPool pathPool' : ObjectPool Nat) (statePool statePool' : ObjectPool (IWriteState N Other)) :
    Path.cost ⟨paths', pathPool', statePool'⟩ id = Path.cost ⟨paths, pathPool, statePool⟩ id := by
  simp only [Path.cost, same]

theorem StandsFor.frame (stands : StandsFor planner initialState heap queued id trail)
    (kept : ∀ other, other ∉ heap.pathPool._objects → other < heap.paths.length → (other ∈ queued → other = id) →
      heap'.paths[other]? = heap.paths[other]? ∧ other ∉ heap'.pathPool._objects ∧ (other ∈ queued' → other = id)) :
    StandsFor planner initialState heap' queued' id trail := by
  obtain ⟨⟨ids, line, apart⟩, cost, view, known⟩ := stands
  have kept' : ∀ other ∈ ids, heap'.paths[other]? = heap.paths[other]? ∧ other ∉ heap'.pathPool._objects ∧
      (other ∈ queued' → other = id) := fun other member =>
    kept other (apart other member).1 (line.lt_length other member) (apart other member).2
  refine ⟨⟨ids, line.frame fun other member => (kept' other member).1, fun other member => (kept' other member).2⟩,
    ?_, view, known⟩
  rw [← cost]
  exact Path.cost_eq (kept' id line.found.1).1 _ _ _ _

theorem StandsFor.executed (stands : StandsFor planner initialState heap queued id trail)
    (executed : Executed (· = initialState) heap heap') : StandsFor planner initialState heap' queued id trail := by
  obtain ⟨⟨ids, line, apart⟩, cost, view, known⟩ := stands
  refine ⟨⟨ids, line.updated executed.paths, ?_⟩, ?_, view, known⟩
  · rw [executed.pathPool]
    exact apart
  · obtain ⟨_, path, found⟩ := line.found
    obtain ⟨path', found', _, _, same, _⟩ := executed.paths.kept id path found
    rw [← cost, Path.cost, Path.cost, found', found]
    exact same

theorem PoolSound.executed (pool : PoolSound heap) (executed : Executed (· = initialState) heap heap') :
    PoolSound heap' := by
  constructor
  · rw [executed.pathPool]
    exact pool.distinct
  · rw [executed.pathPool, executed.paths.length]
    exact pool.made

theorem PoolSound.dispose (pool : PoolSound heap) (out : id ∉ heap.pathPool._objects) (made : id < heap.paths.length) :
    PoolSound (Path.dispose heap id) := by
  refine ⟨ObjectPool.nodup_dispose pool.distinct out, ?_⟩
  intro other member
  rw [Path.dispose, List.length_set]
  rcases ObjectPool.mem_dispose member with same | old
  · exact same ▸ made
  · exact pool.made other old

namespace Frontier

variable {held : List Nat} {queue : PrioritizedQueue Nat} {machine : TwoList Nat} {frontier : TwoList (Trail N Other)}

theorem stands (front : Frontier planner initialState held heap queue machine frontier) {id : Nat}
    (waiting : id ∈ machine.contents) :
    ∃ trail, StandsFor planner initialState heap (held ++ machine.contents) id trail := by
  obtain ⟨pairs, left, _⟩ := TwoList.forall₂_pairs front.related.contents
  rw [left] at waiting
  obtain ⟨pair, _, rfl⟩ := List.mem_map.mp waiting
  exact ⟨_, pair.2⟩

theorem executed (front : Frontier planner initialState held heap queue machine frontier)
    (executed : Executed (· = initialState) heap heap') :
    Frontier planner initialState held heap' queue machine frontier := by
  refine ⟨front.queue.congr ?_, front.pool.executed executed, front.distinct, ?_⟩
  · intro id member
    obtain ⟨trail, stands⟩ := front.stands (List.mem_append_left _ member)
    rw [stands.cost, (stands.executed executed).cost]
  · exact front.related.imp fun id _ trail stands => stands.executed executed

/-- A change of the heap that leaves alone what is in use. -/
theorem frame (front : Frontier planner initialState held heap queue machine frontier) {held' : List Nat}
    (sublist : held'.Sublist held) (pool : PoolSound heap')
    (kept : ∀ id ∈ machine.contents, ∀ other, other ∉ heap.pathPool._objects → other < heap.paths.length →
      (other ∈ held ++ machine.contents → other = id) →
      heap'.paths[other]? = heap.paths[other]? ∧ other ∉ heap'.pathPool._objects) :
    Frontier planner initialState held' heap' queue machine frontier := by
  have smaller := sublist.append_right machine.contents
  have move : ∀ id ∈ machine.contents, ∀ trail, StandsFor planner initialState heap (held ++ machine.contents) id trail →
      StandsFor planner initialState heap' (held' ++ machine.contents) id trail := by
    intro id waiting trail stands
    apply stands.frame
    intro other out bound own
    obtain ⟨same, out'⟩ := kept id waiting other out bound own
    exact ⟨same, out', fun member => own (smaller.subset member)⟩
  refine ⟨front.queue.congr ?_, pool, front.distinct.sublist smaller, front.related.imp move⟩
  intro id member
  have waiting := List.mem_append_left machine.pending member
  obtain ⟨trail, stands⟩ := front.stands waiting
  rw [stands.cost, (move id waiting trail stands).cost]

theorem withStatePool (front : Frontier planner initialState held heap queue machine frontier)
    (statePool : ObjectPool (IWriteState N Other)) :
    Frontier planner initialState held { heap with statePool } queue machine frontier :=
  front.frame (List.Sublist.refl _) ⟨front.pool.distinct, front.pool.made⟩ fun _ _ _ out _ _ => ⟨rfl, out⟩

/-- A path that is held and that no other needs goes back to the pool. -/
theorem dispose {path : Nat} (front : Frontier planner initialState [path] heap queue machine frontier)
    (out : path ∉ heap.pathPool._objects) (made : path < heap.paths.length) :
    Frontier planner initialState [] (Path.dispose heap path) queue machine frontier := by
  refine front.frame (List.nil_sublist _) (front.pool.dispose out made) ?_
  intro id waiting other outside bound own
  have apart : other ≠ path := by
    intro same
    subst same
    have equal := own (by simp)
    rw [equal] at front
    have distinct := front.distinct
    rw [List.singleton_append, List.nodup_cons] at distinct
    exact distinct.1 waiting
  refine ⟨List.getElem?_set_ne (Ne.symm apart), ?_⟩
  intro member
  rcases ObjectPool.mem_dispose member with same | old
  · exact apart same
  · exact outside old

theorem release (front : Frontier planner initialState held heap queue machine frontier) :
    Frontier planner initialState [] heap queue machine frontier :=
  front.frame (List.nil_sublist _) front.pool fun _ _ _ out _ _ => ⟨rfl, out⟩

theorem isEmpty (front : Frontier planner initialState held heap queue machine frontier) :
    (PrioritizedQueue.isEmpty (Path.cost heap) queue).1 = frontier.settle.active.isEmpty ∧
      Frontier planner initialState held heap (PrioritizedQueue.isEmpty (Path.cost heap) queue).2 machine.settle
        frontier.settle := by
  obtain ⟨answer, settled⟩ := front.queue.isEmpty
  have related := front.related.settle
  refine ⟨?_, settled, front.pool, ?_, ?_⟩
  · rw [answer, related.isEmpty]
  · rw [TwoList.settle_contents]
    exact front.distinct
  · rw [TwoList.settle_contents]
    exact related

/-- The path that leaves stands for the trail that leaves. It is in use, but does not wait. -/
theorem pop (front : Frontier planner initialState [] heap queue machine frontier) :
    ((frontier.pop (PrioritizedQueue.priority Trail.cost) planner.unvisitedPathes.discipline).1 = none ∧
      frontier.contents = []) ∨
    ∃ path trail queue' machine' frontier',
      PrioritizedQueue.pop planner.unvisitedPathes (Path.cost heap) queue = .ok (some path, queue') ∧
      frontier.pop (PrioritizedQueue.priority Trail.cost) planner.unvisitedPathes.discipline = (some trail, frontier') ∧
      Frontier planner initialState [path] heap queue' machine' frontier' ∧
      StandsFor planner initialState heap (path :: machine'.contents) path trail := by
  obtain ⟨queue', popped, refines⟩ := front.queue.pop planner.unvisitedPathes
  have keys : ∀ path trail, StandsFor planner initialState heap ([] ++ machine.contents) path trail →
      PrioritizedQueue.priority (Path.cost heap) path = PrioritizedQueue.priority Trail.cost trail := by
    intro path trail stands
    rw [PrioritizedQueue.priority, PrioritizedQueue.icost, stands.cost]
    rfl
  obtain ⟨answers, related⟩ := front.related.pop keys planner.unvisitedPathes.discipline
  rcases answers with ⟨_, nothing⟩ | ⟨path, trail, taken, taken', stands⟩
  · rcases TwoList.pop_contents (PrioritizedQueue.priority Trail.cost) planner.unvisitedPathes.discipline frontier with
      ⟨drained, _⟩ | ⟨trail, found, _⟩
    · exact .inl ⟨nothing, drained⟩
    · rw [nothing] at found
      cases found
  · rcases TwoList.pop_contents (PrioritizedQueue.priority (Path.cost heap)) planner.unvisitedPathes.discipline machine
      with ⟨_, nothing, _⟩ | ⟨path', found, moved⟩
    · rw [nothing] at taken
      cases taken
    · rw [taken] at found popped
      cases found
      have distinct := moved.nodup_iff.mp front.distinct
      have move : ∀ id trail, StandsFor planner initialState heap ([] ++ machine.contents) id trail →
          StandsFor planner initialState heap
            (path :: (machine.pop (PrioritizedQueue.priority (Path.cost heap))
              planner.unvisitedPathes.discipline).2.contents) id trail := by
        intro id trail stands
        exact stands.frame fun other out _ own => ⟨rfl, out, fun member => own (moved.mem_iff.mpr member)⟩
      refine .inr ⟨path, trail, queue', _, _, popped, Prod.ext taken' rfl, ⟨refines, front.pool, distinct, ?_⟩,
        move path trail stands⟩
      exact related.imp fun id _ trail stands => move id trail stands

end Frontier

/-- A path from the pool or a new one: no path in use is it, and no other changes. -/
theorem Path.getNew_spec (pool : PoolSound heap) (action : ActionRef N Other) (parent : Option Nat) (cost : N) :
    ((getNew heap action parent cost).1 ∈ heap.pathPool._objects ∨ (getNew heap action parent cost).1 = heap.paths.length) ∧
    PoolSound (getNew heap action parent cost).2 ∧
    (getNew heap action parent cost).1 ∉ (getNew heap action parent cost).2.pathPool._objects ∧
    (∀ id ∈ (getNew heap action parent cost).2.pathPool._objects, id ∈ heap.pathPool._objects) ∧
    (getNew heap action parent cost).2.paths[(getNew heap action parent cost).1]? = some ⟨action, parent, cost, none⟩ ∧
    ∀ id < heap.paths.length, id ≠ (getNew heap action parent cost).1 →
      (getNew heap action parent cost).2.paths[id]? = heap.paths[id]? := by
  obtain ⟨distinct, made⟩ := pool
  obtain ⟨paths, ⟨objects⟩, statePool⟩ := heap
  cases objects with
  | nil =>
    refine ⟨.inr rfl, ⟨List.nodup_nil, by simp [getNew, ObjectPool.getNew]⟩, by simp [getNew, ObjectPool.getNew],
      by simp [getNew, ObjectPool.getNew], by simp [getNew, ObjectPool.getNew], ?_⟩
    intro id bound apart
    simp only [getNew, ObjectPool.getNew, ↓reduceIte] at apart ⊢
    rw [List.getElem?_set_ne (Ne.symm apart), List.getElem?_append_left bound]
  | cons first rest =>
    have bound : first < paths.length := made first List.mem_cons_self
    have old : first ≠ paths.length := Nat.ne_of_lt bound
    obtain ⟨out, distinct⟩ := List.nodup_cons.mp distinct
    simp only [getNew, ObjectPool.getNew, old, ↓reduceIte]
    refine ⟨.inl List.mem_cons_self, ⟨distinct, ?_⟩, out, fun id member => List.mem_cons_of_mem _ member,
      List.getElem?_set_self bound, fun id _ apart => List.getElem?_set_ne (Ne.symm apart)⟩
    intro id member
    rw [List.length_set]
    exact made id (List.mem_cons_of_mem _ member)

namespace Frontier

variable {queue : PrioritizedQueue Nat} {machine : TwoList Nat} {frontier : TwoList (Trail N Other)} {path : Option Nat}

/-- A child of a path joins the lazy paths. -/
theorem pushLazy (front : Frontier planner initialState [] heap queue machine frontier)
    (parent : Parent planner initialState heap machine.contents path trail) {child : Trail N Other}
    {action : ActionRef N Other} (actions : child.actions = action :: trail.actions)
    (view : outcome initialState.view child.actions = .ok child.view) (known : action ∈ planner._planningActions)
    (statePool : ObjectPool (IWriteState N Other)) :
    Frontier planner initialState [] { (Path.getNew heap action path child.cost).2 with statePool }
      (queue.pushLazy (Path.getNew heap action path child.cost).1)
      { machine with pending := machine.pending ++ [(Path.getNew heap action path child.cost).1] }
      { frontier with pending := frontier.pending ++ [child] } ∧
    Parent planner initialState { (Path.getNew heap action path child.cost).2 with statePool }
      (TwoList.contents { machine with pending := machine.pending ++ [(Path.getNew heap action path child.cost).1] })
      path trail := by
  obtain ⟨origin, pool, out, within, found, others⟩ := Path.getNew_spec front.pool action path child.cost
  generalize Path.getNew heap action path child.cost = made at *
  obtain ⟨id, heap'⟩ := made
  simp only at *
  have unused : ∀ other, other ∉ heap.pathPool._objects → other < heap.paths.length → other ≠ id := by
    intro other outside bound same
    subst same
    rcases origin with pooled | new
    · exact outside pooled
    · exact Nat.ne_of_lt bound new
  have contents : TwoList.contents { machine with pending := machine.pending ++ [id] } = machine.contents ++ [id] := by
    simp [TwoList.contents]
  have fresh : id ∉ machine.contents := by
    intro waiting
    obtain ⟨_, stood⟩ := front.stands waiting
    obtain ⟨ids, line, apart⟩ := stood.line
    have own := line.found.1
    exact unused id (apart id own).1 (line.lt_length id own) rfl
  have move : ∀ other trail, StandsFor planner initialState heap ([] ++ machine.contents) other trail →
      StandsFor planner initialState { heap' with statePool } ([] ++ (machine.contents ++ [id])) other trail := by
    intro other trail stands
    apply stands.frame
    intro another outside bound own
    have apart := unused another outside bound
    refine ⟨others another bound apart, fun member => outside (within another member), ?_⟩
    intro member
    rcases List.mem_append.mp member with old | new
    · cases old
    · rcases List.mem_append.mp new with old | new
      · exact own old
      · exact absurd (List.mem_singleton.mp new) apart
  obtain ⟨⟨ids, line, apart⟩, reached, taken⟩ := parent
  have line' : Line (· = initialState) heap'.paths path ids trail.actions :=
    line.frame fun other member => others other (line.lt_length other member)
      (unused other (apart other member).1 (line.lt_length other member))
  have apart' : ∀ other ∈ ids, other ∉ heap'.pathPool._objects ∧ other ∉ machine.contents ++ [id] := by
    intro other member
    obtain ⟨outside, idle⟩ := apart other member
    refine ⟨fun pooled => outside (within other pooled), ?_⟩
    simpa [idle] using unused other outside (line.lt_length other member)
  have stands : StandsFor planner initialState { heap' with statePool } ([] ++ (machine.contents ++ [id])) id child := by
    refine ⟨⟨id :: ids, ?_, ?_⟩, ?_, view, ?_⟩
    · rw [actions]
      exact .child found (fun member => (apart' id member).2 (by simp)) (by simp [Remembers]) line'
    · intro other member
      rcases List.mem_cons.mp member with own | old
      · exact ⟨own ▸ out, fun _ => own⟩
      · obtain ⟨outside, idle⟩ := apart' other old
        exact ⟨outside, fun waiting => absurd waiting idle⟩
    · simp [Path.cost, found]
    · rw [actions]
      exact List.forall_mem_cons.mpr ⟨known, taken⟩
  rw [contents]
  refine ⟨⟨?_, ⟨pool.distinct, pool.made⟩, ?_, ?_⟩, ⟨ids, line', apart'⟩, reached, taken⟩
  · obtain ⟨holds, pending⟩ := front.queue
    refine PrioritizedQueue.Refines.congr ⟨holds.withLazyArray _, congrArg (· ++ [id]) pending⟩ ?_
    intro other member
    obtain ⟨old, stood⟩ := front.stands (List.mem_append_left machine.pending member)
    rw [stood.cost, (move other old stood).cost]
  · rw [contents]
    simpa [List.nodup_append] using ⟨front.distinct, fun other member same => fresh (same ▸ member)⟩
  · rw [contents]
    have kept := front.related.imp fun other _ trail stands => move other trail stands
    exact kept.append (.cons stands .nil)

end Frontier

end Goap.AS3
