import Goap.AS3.Session

/-! What `makePlan` ends with: always with an answer, with a plan only if it leads to a goal,
and with null only if no goal can be reached, as far as the hashes tell states apart. -/

namespace Goap.AS3

open NumberOps Foundation

instance fintypeUInt32 : Fintype UInt32 := Fintype.ofEquiv (Fin UInt32.size) ⟨UInt32.ofFin, UInt32.toFin, fun _ => rfl, fun _ => rfl⟩

theorem card_uInt32 : Fintype.card UInt32 = UInt32.size := by
  rw [Fintype.ofEquiv_card, Fintype.card_fin]

variable {N Other : Type} [ToString Other] [NumberOps N] {planner : Planner N Other}
  {meter : PlanningStateMeter N Other} {initial : View N Other} {plain : PlainSearch N Other}

namespace Planner

/-- What the loop without objects ends with, and the search before its last iteration. -/
inductive Ends (planner : Planner N Other) (meter : PlanningStateMeter N Other) (initial : View N Other)
    (last : PlainSearch N Other) : Except Error (Option (List (ActionRef N Other) × List (View N Other))) → Prop where
  | exhausted (drained : last.frontier.contents = []) : Ends planner meter initial last (.ok none)
  | reachedGoal {trail : Trail N Other} (taken : trail ∈ last.frontier.contents)
      (enough : onView meter.enough trail.view = .ok true)
      (fresh : ∀ node ∈ last.expanded, hashOf node.at? ≠ hashOf trail.view.at?) :
      Ends planner meter initial last (.ok (some (trail.actions.reverse, along initial trail.actions)))
  | thrown {trail : Trail N Other} {e : Error} (taken : trail ∈ last.frontier.contents)
      (failed : onView meter.enough trail.view = .error e) : Ends planner meter initial last (.error e)

/-- Some run of the search on the graph leads to the last iteration. -/
theorem plainLoop_ends {fuel : Nat} {answer : Except Error (Option (List (ActionRef N Other) × List (View N Other)))}
    (run : (graph planner meter).Run initial plain.visited)
    (ended : plainLoop planner meter initial fuel plain = some answer) :
    ∃ last, (graph planner meter).Run initial last.visited ∧ Ends planner meter initial last answer := by
  induction fuel generalizing plain with
  | zero => cases ended
  | succ fuel ih =>
    unfold plainLoop at ended
    have iteration := plainStep_iteration planner meter plain
    generalize plainStep planner meter plain = status at iteration ended
    cases iteration with
    | exhausted drained =>
      cases ended
      exact ⟨plain, run, .exhausted drained⟩
    | running step => exact ih (run.step step) ended
    | reachedGoal taken enough fresh =>
      cases ended
      exact ⟨plain, run, .reachedGoal taken enough fresh⟩
    | thrown taken failed =>
      cases ended
      exact ⟨plain, run, .thrown taken failed⟩

/-- Every iteration that goes on uses up some of the potential. -/
theorem plainLoop_isSome {fuel : Nat} (run : (graph planner meter).Run initial plain.visited)
    (spare : (graph planner meter).potential UInt32.size plain.visited < fuel) :
    (plainLoop planner meter initial fuel plain).isSome := by
  induction fuel generalizing plain with
  | zero => exact absurd spare (Nat.not_lt_zero _)
  | succ fuel ih =>
    unfold plainLoop
    have iteration := plainStep_iteration planner meter plain
    generalize plainStep planner meter plain = status at iteration
    cases iteration with
    | exhausted _ => rfl
    | running step =>
      have next := run.step step
      have room := next.sound.expanded_le
      rw [card_uInt32] at room
      have less := step.potential_lt room
      exact ih next (by omega)
    | reachedGoal _ _ _ => rfl
    | thrown _ _ => rfl

theorem potential_start (planner : Planner N Other) (meter : PlanningStateMeter N Other) (initial : View N Other) :
    (graph planner meter).potential UInt32.size (plainStart planner meter initial).visited ≤
      UInt32.size * planner._planningActions.length := by
  have children := KeyedGraph.length_children_le (graph planner meter) ([], initial)
  have positive : UInt32.size = UInt32.size - 1 + 1 := rfl
  rw [plainStart_visited, positive, Nat.succ_mul, ← positive]
  exact Nat.add_le_add_left children _

theorem plainPlan_isSome {fuel : Nat} (enough : UInt32.size * planner._planningActions.length < fuel) :
    (plainPlan planner meter initial fuel).isSome :=
  plainLoop_isSome (plainStart_run planner meter initial)
    (Nat.lt_of_le_of_lt (potential_start planner meter initial) enough)

theorem outcome_of_follow {actions : List (ActionRef N Other)} {final : View N Other}
    (followed : (graph planner meter).follow initial actions.reverse = some final) :
    outcome initial actions = .ok final := by
  induction actions generalizing final with
  | nil => exact congrArg Except.ok (Option.some.inj followed)
  | cons action before ih =>
    rw [List.reverse_cons, KeyedGraph.follow_append] at followed
    obtain ⟨middle, earlier, last⟩ := Option.bind_eq_some_iff.mp followed
    obtain ⟨next, moved, same⟩ := Option.bind_eq_some_iff.mp last
    cases same
    obtain ⟨child, measuring, rfl⟩ := Option.map_eq_some_iff.mp moved
    rw [outcome, ih earlier]
    exact (measured_spec measuring).2.1

/-- What can be read along a trail is where its beginnings lead. -/
theorem along_spec {actions : List (ActionRef N Other)} {final : View N Other}
    (followed : (graph planner meter).follow initial actions.reverse = some final) :
    (along initial actions).length = actions.length ∧ ∀ n < actions.length,
      (graph planner meter).follow initial (actions.reverse.take (n + 1)) = (along initial actions)[n]? := by
  induction actions generalizing final with
  | nil => exact ⟨rfl, by simp⟩
  | cons action before ih =>
    have reached := outcome_of_follow followed
    have split := followed
    rw [List.reverse_cons, KeyedGraph.follow_append] at split
    obtain ⟨middle, earlier, _⟩ := Option.bind_eq_some_iff.mp split
    obtain ⟨length, steps⟩ := ih earlier
    simp only [along, reached]
    refine ⟨by simp [length], ?_⟩
    intro n bound
    rw [List.length_cons] at bound
    rcases Nat.lt_succ_iff_lt_or_eq.mp bound with inside | same
    · rw [List.getElem?_append_left (by omega), ← steps n inside, List.reverse_cons,
        List.take_append_of_le_length (by simp; omega)]
    · subst same
      rw [← length, List.getElem?_concat_length, length, ← followed]
      congr 1
      apply List.take_of_length_le
      simp

/-- Each state that is expanded has been set once, under a hash of its own. -/
structure Counted (search : Search N Other) : Prop where
  keys : ∀ hash, hash ∈ search.visitedStates.dictionary ↔ hash ∈ search.expanded.map fun state => state.toState.hash.1
  distinct : (search.expanded.map fun state => state.toState.hash.1).Nodup
  length : search.visitedStates.length = search.expanded.length

theorem gatherAction_counts (meter : PlanningStateMeter N Other) (path : Option Nat) (reachedByPath : IWriteState N Other) (pathCost min : N)
    (gather : Gather N Other) (action : ActionRef N Other) :
    let gathered := gatherAction meter path reachedByPath pathCost min gather action
    gathered.search.visitedStates = gather.search.visitedStates ∧
      gathered.search.analyzedPaths = gather.search.analyzedPaths ∧
      gathered.search.expanded = gather.search.expanded := by
  dsimp only
  unfold gatherAction
  split
  · exact ⟨rfl, rfl, rfl⟩
  · exact ⟨rfl, rfl, rfl⟩
  · dsimp only
    split
    · exact ⟨rfl, rfl, rfl⟩
    · split
      · exact ⟨rfl, rfl, rfl⟩
      · exact ⟨rfl, rfl, rfl⟩

/-- `gather` counts nothing. -/
theorem gather_counts (planner : Planner N Other) (path : Option Nat) (reachedByPath : IWriteState N Other)
    (pathCost : N) (search : Search N Other) :
    let gathered := gather planner meter path reachedByPath pathCost search
    gathered.visitedStates = search.visitedStates ∧ gathered.analyzedPaths = search.analyzedPaths ∧
      gathered.expanded = reachedByPath :: search.expanded := by
  have folded : ∀ (actions : List (ActionRef N Other)) (begun : Gather N Other),
      let gathered := actions.foldl (gatherAction meter path reachedByPath pathCost search.minDistance) begun
      gathered.search.visitedStates = begun.search.visitedStates ∧
        gathered.search.analyzedPaths = begun.search.analyzedPaths ∧
        gathered.search.expanded = begun.search.expanded := by
    intro actions
    induction actions with
    | nil => exact fun _ => ⟨rfl, rfl, rfl⟩
    | cons action rest ih =>
      intro begun
      obtain ⟨visited, analysed, expanded⟩ :=
        gatherAction_counts meter path reachedByPath pathCost search.minDistance begun action
      obtain ⟨visited', analysed', expanded'⟩ :=
        ih (gatherAction meter path reachedByPath pathCost search.minDistance begun action)
      exact ⟨visited'.trans visited, analysed'.trans analysed, expanded'.trans expanded⟩
  have counts := folded planner._planningActions
    { search := { search with expanded := reachedByPath :: search.expanded }, plan := none }
  unfold gather
  dsimp only at counts ⊢
  split <;> exact counts

omit [NumberOps N] in
theorem Counted.setAt {state : IWriteState N Other} {search search' : Search N Other} (counted : Counted search)
    (fresh : search.visitedStates.at? state.toState = none)
    (visited : search'.visitedStates = search.visitedStates.setAt state.toState state)
    (expanded : search'.expanded = state :: search.expanded) : Counted search' := by
  have missing : state.toState.hash.1 ∉ search.visitedStates.dictionary := AList.lookup_eq_none.mp fresh
  refine ⟨?_, ?_, ?_⟩
  · intro hash
    rw [visited, expanded, List.map_cons, List.mem_cons, ← counted.keys, StatesDictionary.setAt, AList.mem_insert]
  · rw [expanded, List.map_cons, List.nodup_cons, ← counted.keys]
    exact ⟨missing, counted.distinct⟩
  · have kept := counted.length
    unfold StatesDictionary.length at kept ⊢
    rw [visited, expanded, List.length_cons, ← kept, StatesDictionary.setAt, AList.entries_insert_of_notMem missing,
      List.length_cons]

/-- An iteration counts the state at the end of a path if its hash is new, and nothing else. -/
theorem loopStep_counts {initialState : IWriteState N Other} {search search' : Search N Other}
    (ran : loopStep planner meter initialState search = .running search') :
    (search'.visitedStates = search.visitedStates ∧ search'.expanded = search.expanded ∧
      search'.analyzedPaths = search.analyzedPaths) ∨
    ∃ state, search.visitedStates.at? state.toState = none ∧
      search'.visitedStates = search.visitedStates.setAt state.toState state ∧
      search'.expanded = state :: search.expanded ∧ search'.analyzedPaths = search.analyzedPaths + 1 := by
  unfold loopStep at ran
  dsimp only at ran
  split at ran
  · cases ran
  · split at ran
    · cases ran
    · cases ran
    · unfold visit at ran
      split at ran
      · cases ran
      · rename_i reachedByPath heap _
        dsimp only at ran
        split at ran
        · cases ran
          exact .inl ⟨rfl, rfl, rfl⟩
        · rename_i fresh
          split at ran
          · cases ran
          · cases ran
          · cases ran
            obtain ⟨visited, analysed, expanded⟩ := gather_counts planner (some _) reachedByPath (Path.cost heap _) _
            exact .inr ⟨reachedByPath, fresh, visited, expanded, congrArg (· + 1) analysed⟩

/-- Of the states that are analysed, the initial one among them, no two have the same hash. So
there are never more than there are hashes, and all others are counted by an int. -/
theorem Explored.analysed_once {initialState : IWriteState N Other} {heap : Heap N Other} {search : Search N Other}
    (explored : planner.Explored meter initialState heap search) :
    (search.expanded.map fun state => state.toState.hash.1).Nodup ∧
      ∃ analysed < UInt32.size, search.expanded.length = analysed + 1 ∧ search.visitedStates.length = analysed + 1 ∧
        search.analyzedPaths = Int32.ofNat analysed ∧ (analysed < 2 ^ 31 → search.analyzedPaths.toInt = analysed) := by
  suffices both : Counted search ∧ ∃ analysed, search.expanded.length = analysed + 1 ∧
      search.analyzedPaths = Int32.ofNat analysed by
    obtain ⟨counted, analysed, total, count⟩ := both
    have room := counted.distinct.length_le_card
    rw [List.length_map, card_uInt32] at room
    refine ⟨counted.distinct, analysed, by omega, total, counted.length.trans total, count, ?_⟩
    intro small
    rw [count]
    exact Int32.toInt_ofNat_of_lt small
  induction explored with
  | start =>
    let empty : Search N Other := ⟨heap, .new, .new, number 1, 0, 0, []⟩
    have counted : Counted empty :=
      ⟨fun hash => ⟨fun stored => absurd stored (AList.notMem_empty hash), by simp [empty]⟩, List.nodup_nil, rfl⟩
    obtain ⟨visited, analysed, expanded⟩ := gather_counts planner none initialState (number 0)
      { empty with visitedStates := StatesDictionary.new.setAt initialState.toState initialState }
    have fresh : empty.visitedStates.at? initialState.toState = none := rfl
    refine ⟨counted.setAt fresh visited expanded, 0, ?_, ?_⟩
    · exact congrArg List.length expanded
    · exact analysed
  | step _ ran ih =>
    obtain ⟨counted, analysed, total, count⟩ := ih
    rcases loopStep_counts ran with ⟨visited, expanded, same⟩ | ⟨state, fresh, visited, expanded, next⟩
    · obtain ⟨keys, distinct, length⟩ := counted
      refine ⟨⟨by rwa [visited, expanded], by rwa [expanded], by rwa [visited, expanded]⟩, analysed, ?_, ?_⟩
      · rw [expanded, total]
      · rw [same, count]
    · refine ⟨counted.setAt fresh visited expanded, analysed + 1, ?_, ?_⟩
      · rw [expanded, List.length_cons, total]
      · rw [next, count, Int32.ofNat_add]
        rfl

theorem Explored.analysed_once_lift :
    ∃ search, (lift 3 [1, 2]).Explored (toFloor 9) (onFloor 0) ⟨[], .new, .new⟩ search ∧
      search.visitedStates.length = 2 ∧ search.analyzedPaths.toInt = 1 ∧ (search.expanded.map fun state => state.toState.hash.1).Nodup := by
  have ran : (match (lift 3 [1, 2]).loopStep (toFloor 9) (onFloor 0)
      ((lift 3 [1, 2]).start (toFloor 9) (onFloor 0) ⟨[], .new, .new⟩) with
    | .running search => search.expanded.length == 2
    | _ => false) = true := by decide +kernel
  split at ran
  · rename_i search taken
    have explored := Explored.step .start taken
    obtain ⟨distinct, analysed, _, total, visited, _, counted⟩ := Explored.analysed_once explored
    obtain rfl : analysed = 1 := Nat.succ.inj (total.symm.trans (beq_iff_eq.mp ran))
    exact ⟨search, explored, visited, counted (by decide), distinct⟩
  · cases ran

end Planner

theorem lift_views {top : ℕ} {steps : List ℕ} {meter : PlanningStateMeter ℚ ℕ} {node : View ℚ ℕ}
    (reachable : ((lift top steps).graph meter).Reachable (onFloor 0).view node) :
    ∃ floor ≤ top, node = (onFloor floor).view := by
  refine reachable.invariant (fun node => ∃ floor ≤ top, node = (onFloor floor).view) ⟨0, Nat.zero_le _, rfl⟩ ?_
  intro node before action member next moved
  obtain ⟨floor, _, rfl⟩ := before
  obtain ⟨floors, _, rfl⟩ := List.mem_map.mp member
  obtain ⟨child, measuring, rfl⟩ := Option.map_eq_some_iff.mp moved
  obtain ⟨allowed, effect, _⟩ := Planner.measured_spec measuring
  rw [allowed_rise] at allowed
  rw [effect_rise] at effect
  exact ⟨floor + floors, of_decide_eq_true (Except.ok.inj allowed), (Except.ok.inj effect).symm⟩

theorem lift_respects {top : ℕ} (apart : ∀ floor ≤ top, ∀ other ≤ top,
      (onFloor floor).toState.hash.1 = (onFloor other).toState.hash.1 → floor = other)
    (steps : List ℕ) (meter : PlanningStateMeter ℚ ℕ) : ((lift top steps).graph meter).KeyRespects (onFloor 0).view := by
  apply KeyedGraph.KeyRespects.of_injective
  intro node other left right same
  obtain ⟨floor, below, rfl⟩ := lift_views left
  obtain ⟨floor', below', rfl⟩ := lift_views right
  change hashOf (onFloor floor).view.at? = hashOf (onFloor floor').view.at? at same
  rw [← hash_eq_hashOf, ← hash_eq_hashOf] at same
  rw [apart floor below floor' below' same]

theorem Planner.expanded_of_exhausted {initialState : IWriteState N Other} {search search' : Search N Other}
    (ended : planner.loopStep meter initialState search = .exhausted search') : search'.expanded = search.expanded := by
  unfold Planner.loopStep at ended
  dsimp only at ended
  split at ended
  · cases ended
    rfl
  · split at ended
    · cases ended
    · cases ended
    · unfold Planner.visit at ended
      split at ended
      · cases ended
      · split at ended
        · cases ended
        · split at ended <;> cases ended

namespace Session

variable {heap : Heap N Other} {initialState : IWriteState N Other} {result : PlanResult N Other}
  {actionsArray : Option (List (ActionRef N Other))} {states : Option (List (IWriteState N Other))} {fuel : Nat}

theorem answer (session : Session heap) (readable : planner.Readable meter)
    (ended : planner.makePlan meter initialState heap actionsArray states fuel = some (.ok result)) :
    ∃ plan, planner.plainPlan meter initialState.view fuel = some (.ok plan) ∧
      result.read = told actionsArray (states.map fun states => states.map IWriteState.view) plan := by
  have same := (Planner.mainLoop_spec readable actionsArray states fuel
    (Planner.start_simulates readable session.pool initialState)).1
  rw [Planner.makePlan] at ended
  rw [ended] at same
  obtain ⟨plain, planned, read⟩ := Option.map_eq_some_iff.mp same.symm
  cases plain with
  | error e => cases read
  | ok plan => exact ⟨plan, planned, (Except.ok.inj read).symm⟩

theorem thrown_by_meter {thrown : Thrown (PlanLeft N Other)} (session : Session heap) (readable : planner.Readable meter)
    (ended : planner.makePlan meter initialState heap actionsArray states fuel = some (.error thrown)) :
    ∃ view, onView meter.enough view = .error thrown.error := by
  have same := (Planner.mainLoop_spec readable actionsArray states fuel
    (Planner.start_simulates readable session.pool initialState)).1
  rw [Planner.makePlan] at ended
  rw [ended] at same
  obtain ⟨answer, planned, told⟩ := Option.map_eq_some_iff.mp same.symm
  cases answer with
  | ok plan => cases told
  | error e' =>
    cases told
    obtain ⟨last, _, ends⟩ := Planner.plainLoop_ends (Planner.plainStart_run planner meter initialState.view) planned
    cases ends with
    | thrown _ failed => exact ⟨_, failed⟩

/-- Every call ends, however many states can be reached. -/
theorem makePlan_ends (session : Session heap) (readable : planner.Readable meter)
    (initialState : IWriteState N Other) (actionsArray : Option (List (ActionRef N Other)))
    (states : Option (List (IWriteState N Other)))
    (enough : UInt32.size * planner._planningActions.length < fuel) :
    (planner.makePlan meter initialState heap actionsArray states fuel).isSome := by
  have same := (Planner.mainLoop_spec readable actionsArray states fuel
    (Planner.start_simulates readable session.pool initialState)).1
  have ended : (planner.plainPlan meter initialState.view fuel).isSome := Planner.plainPlan_isSome enough
  rw [← Option.isSome_map (f := PlanResult.readEnd), Planner.makePlan, same, Option.isSome_map]
  exact ended

theorem makePlan_ends_lift :
    ((lift 3 [1, 2]).makePlan (toFloor 9) (onFloor 0) ⟨[], .new, .new⟩ none none (UInt32.size * 2 + 1)).isSome :=
  Session.makePlan_ends .new (lift_readable 3 [1, 2] 9) (onFloor 0) none none (Nat.lt_succ_self _)

/-- A plan is that of a trail that leads to a goal. -/
theorem trail_of_plan {actions : List (ActionRef N Other)} (session : Session heap)
    (readable : planner.Readable meter)
    (ended : planner.makePlan meter initialState heap actionsArray states fuel = some (.ok result))
    (found : result.actionsArray = some actions) :
    ∃ trail : Trail N Other, actions = trail.actions.reverse ++ actionsArray.getD [] ∧
      (planner.graph meter).Leads initialState.view trail.actions.reverse trail.view ∧
      onView meter.enough trail.view = .ok true ∧ hashOf trail.view.at? ≠ hashOf initialState.view.at? ∧
      result.states.map (fun states => states.map IWriteState.view) =
        states.map fun states => Planner.along initialState.view trail.actions ++ states.map IWriteState.view := by
  obtain ⟨answer, planned, read⟩ := session.answer readable ended
  obtain ⟨last, run, ends⟩ := Planner.plainLoop_ends (Planner.plainStart_run planner meter initialState.view) planned
  have told_actions := congrArg Prod.fst read
  have told_states := congrArg Prod.snd read
  simp only [PlanResult.read, found] at told_actions told_states
  generalize same : Except.ok answer = outcome at ends
  cases ends with
  | exhausted _ =>
    cases same
    cases told_actions
  | thrown _ _ => cases same
  | @reachedGoal trail taken enough fresh =>
    cases same
    have sound := run.sound
    have leads := sound.leads _ (List.mem_map_of_mem (f := fun trail => (trail.actions.reverse, trail.view)) taken)
    refine ⟨trail, Option.some.inj told_actions, leads, enough, (fresh _ sound.began).symm, ?_⟩
    rw [told_states]
    cases states <;> rfl

/-- A plan leads over allowed actions to a state that is enough and that is none of those
known by the hash of the initial state. The array of states gets what is reached on the way. -/
theorem makePlan_leads {actions : List (ActionRef N Other)} (session : Session heap)
    (readable : planner.Readable meter)
    (ended : planner.makePlan meter initialState heap actionsArray states fuel = some (.ok result))
    (found : result.actionsArray = some actions) :
    ∃ plan final reached, actions = plan ++ actionsArray.getD [] ∧ plan ≠ [] ∧
      (planner.graph meter).Leads initialState.view plan final ∧ onView meter.enough final = .ok true ∧
      hashOf final.at? ≠ hashOf initialState.view.at? ∧
      result.states.map (fun states => states.map IWriteState.view) =
        states.map (fun states => reached ++ states.map IWriteState.view) ∧
      reached.length = plan.length ∧ ∀ n < plan.length,
        (planner.graph meter).follow initialState.view (plan.take (n + 1)) = reached[n]? := by
  obtain ⟨trail, told_actions, leads, enough, apart, told_states⟩ := session.trail_of_plan readable ended found
  obtain ⟨length, steps⟩ := Planner.along_spec leads.1
  refine ⟨_, trail.view, _, told_actions, ?_, leads, enough, apart, told_states, by rw [length, List.length_reverse], ?_⟩
  · intro nothing
    have same := leads.1
    simp only [nothing, KeyedGraph.follow, Option.some.injEq] at same
    exact apart (by rw [← same])
  · rw [List.length_reverse]
    exact steps

theorem makePlan_leads_lift :
    ∃ result actions plan final, (lift 3 [1, 2]).makePlan (toFloor 3) (onFloor 0) ⟨[], .new, .new⟩ none none 9 =
        some (.ok result) ∧ result.actionsArray = some actions ∧ actions = plan ++ [] ∧ plan ≠ [] ∧
      ((lift 3 [1, 2]).graph (toFloor 3)).Leads (onFloor 0).view plan final ∧ onView (toFloor 3).enough final = .ok true := by
  have ran : ((((lift 3 [1, 2]).makePlan (toFloor 3) (onFloor 0) ⟨[], .new, .new⟩ none none 9).bind
      Except.toOption).bind PlanResult.actionsArray).isSome = true := by decide +kernel
  obtain ⟨actions, reported⟩ := Option.isSome_iff_exists.mp ran
  obtain ⟨result, answered, found⟩ := Option.bind_eq_some_iff.mp reported
  obtain ⟨answer, ended, told⟩ := Option.bind_eq_some_iff.mp answered
  cases answer with
  | error e => cases told
  | ok other =>
    cases told
    obtain ⟨plan, final, _, same, some', leads, enough, _⟩ := Session.makePlan_leads .new (lift_readable 3 [1, 2] 3) ended found
    exact ⟨result, actions, plan, final, ended, found, same, some', leads, enough⟩

theorem told_by_last (session : Session heap) (readable : planner.Readable meter) (initialState : IWriteState N Other)
    (actionsArray : Option (List (ActionRef N Other))) (states : Option (List (IWriteState N Other)))
    (enough : UInt32.size * planner._planningActions.length < fuel) :
    ∃ last answer result, (planner.graph meter).Run initialState.view last.visited ∧
      Planner.Ends planner meter initialState.view last answer ∧
      planner.makePlan meter initialState heap actionsArray states fuel = some result ∧
      PlanResult.readEnd result = answer.map (told actionsArray (states.map fun states => states.map IWriteState.view)) := by
  have ended : (planner.plainPlan meter initialState.view fuel).isSome := Planner.plainPlan_isSome enough
  obtain ⟨answer, planned⟩ := Option.isSome_iff_exists.mp ended
  obtain ⟨last, run, ends⟩ := Planner.plainLoop_ends (Planner.plainStart_run planner meter initialState.view) planned
  have same := (Planner.mainLoop_spec readable actionsArray states fuel
    (Planner.start_simulates readable session.pool initialState)).1
  rw [Planner.plainPlan] at planned
  rw [planned] at same
  obtain ⟨result, ended, read⟩ := Option.map_eq_some_iff.mp same
  exact ⟨last, answer, result, run, ends, ended, read⟩

/-- Null is what a loop ends with when no path waits any more. -/
theorem exhausted_of_null {search : Search N Other} {plain : PlainSearch N Other} (readable : planner.Readable meter)
    (simulates : Simulates planner initialState search plain)
    (run : (planner.graph meter).Run initialState.view plain.visited)
    (ended : planner.mainLoop meter initialState actionsArray states fuel search = some (.ok result))
    (null : result.actionsArray = none) :
    (planner.graph meter).Sound initialState.view ⟨result.search.expanded.map IWriteState.view, []⟩ := by
  induction fuel generalizing search plain with
  | zero => cases ended
  | succ fuel ih =>
    unfold Planner.mainLoop at ended
    have agrees := Planner.loopStep_agrees readable simulates
    have iteration := Planner.plainStep_iteration planner meter plain
    generalize moved : planner.loopStep meter initialState search = status at agrees ended
    generalize planner.plainStep meter plain = plainStatus at agrees iteration
    cases agrees with
    | running next =>
      cases iteration with
      | running step => exact ih next (run.step step) ended
    | exhausted _ =>
      cases iteration with
      | exhausted drained =>
        cases ended
        have sound := run.sound
        rw [PlainSearch.visited, drained, ← simulates.expanded] at sound
        rw [Planner.expanded_of_exhausted moved]
        exact sound
    | reachedGoal _ _ =>
      simp only [Planner.reportGoal] at ended
      split at ended
      · cases ended
        cases null
      · split at ended
        · cases ended
        · cases ended
          cases null
    | thrown _ _ => cases ended

/-- Where states of one hash cannot be told apart, null means that no goal can be reached but
by the hash of the initial state. -/
theorem makePlan_null_iff (session : Session heap) (readable : planner.Readable meter)
    (initialState : IWriteState N Other)
    (respects : (planner.graph meter).KeyRespects initialState.view)
    (answers : ∀ node, (planner.graph meter).Reachable initialState.view node →
      ∃ answer, onView meter.enough node = .ok answer)
    (actionsArray : Option (List (ActionRef N Other))) (states : Option (List (IWriteState N Other)))
    (enough : UInt32.size * planner._planningActions.length < fuel) :
    ∃ result, planner.makePlan meter initialState heap actionsArray states fuel = some (.ok result) ∧
      (result.actionsArray = none ↔ ∀ node, (planner.graph meter).Reachable initialState.view node →
        (planner.graph meter).goal node = true → hashOf node.at? = hashOf initialState.view.at?) := by
  obtain ⟨last, answer, result, run, ends, ended, read⟩ :=
    session.told_by_last readable initialState actionsArray states enough
  have sound := run.sound
  have reachable : ∀ trail ∈ last.frontier.contents, (planner.graph meter).Reachable initialState.view trail.view :=
    fun trail taken => ⟨_, sound.leads _ (List.mem_map_of_mem (f := fun trail => (trail.actions.reverse, trail.view)) taken)⟩
  cases ends with
  | thrown taken failed =>
    obtain ⟨answer, answered⟩ := answers _ (reachable _ taken)
    rw [failed] at answered
    cases answered
  | exhausted drained =>
    cases result with
    | error e => cases read
    | ok result =>
      have nothing : last.visited.waiting = [] := by
        rw [PlainSearch.visited, drained]
        rfl
      refine ⟨result, ended, fun _ node reached goal => sound.key_of_goal respects nothing reached goal, ?_⟩
      exact fun _ => congrArg Prod.fst (Except.ok.inj read)
  | @reachedGoal trail taken enough fresh =>
    cases result with
    | error e => cases read
    | ok result =>
      have told_actions := congrArg Prod.fst (Except.ok.inj read)
      refine ⟨result, ended, ?_, ?_⟩
      · intro null
        rw [PlanResult.read, null] at told_actions
        cases told_actions
      · intro only
        have goal : (planner.graph meter).goal trail.view = true := by simp [Planner.graph, enough]
        exact absurd (only _ (reachable _ taken) goal).symm (fresh _ sound.began)

theorem makePlan_null_iff_lift :
    ∃ result, (lift 3 [1, 2]).makePlan (toFloor 3) (onFloor 0) ⟨[], .new, .new⟩ none none (UInt32.size * 2 + 1) =
        some (.ok result) ∧
      (result.actionsArray = none ↔ ∀ node, ((lift 3 [1, 2]).graph (toFloor 3)).Reachable (onFloor 0).view node →
        ((lift 3 [1, 2]).graph (toFloor 3)).goal node = true → hashOf node.at? = hashOf (onFloor 0).view.at?) := by
  have readable := lift_readable 3 [1, 2] 3
  have answers : ∀ node, ((lift 3 [1, 2]).graph (toFloor 3)).Reachable (onFloor 0).view node →
      ∃ answer, onView (toFloor 3).enough node = .ok answer := by
    intro node reachable
    obtain ⟨floor, _, rfl⟩ := lift_views reachable
    exact ⟨_, onView_view readable.enough (onFloor floor)⟩
  exact Session.makePlan_null_iff .new readable (onFloor 0) (lift_respects floors_apart [1, 2] (toFloor 3)) answers none none
    (Nat.lt_succ_self _)

end Session

end Goap.AS3
